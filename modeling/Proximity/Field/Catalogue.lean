import Proximity.Field.Basic

/-! The prime fields that are known by their order, each with its least generator. -/

namespace Proximity.PrimeField

/-- The field of order 2^64 - 2^32 + 1, in which every product of two elements fits two words. -/
def goldilocks : PrimeField where
  order := 18446744069414584321
  generator := 7

/-- Every field known by its order. -/
def catalogue : List PrimeField := [
  { order := 2, generator := 1 },
  { order := 3, generator := 2 },
  { order := 5, generator := 2 },
  { order := 7, generator := 3 },
  { order := 13, generator := 2 },
  { order := 17, generator := 3 },
  { order := 31, generator := 3 },
  { order := 97, generator := 5 },
  { order := 193, generator := 5 },
  { order := 251, generator := 6 },
  { order := 257, generator := 3 },
  { order := 769, generator := 11 },
  { order := 12289, generator := 11 },
  { order := 40961, generator := 3 },
  { order := 65521, generator := 17 },
  { order := 65537, generator := 3 },
  { order := 786433, generator := 10 },
  { order := 7340033, generator := 3 },
  { order := 998244353, generator := 3 },
  { order := 2013265921, generator := 31 },
  { order := 2130706433, generator := 3 },
  { order := 2147483647, generator := 7 },
  { order := 3221225473, generator := 5 },
  { order := 4294967291, generator := 2 },
  { order := 2305843009213693951, generator := 37 },
  goldilocks,
  { order := 170141183460469231731687303715884105727, generator := 43 },
  { order := 57896044618658097711785492504343953926634992332820282019728792003956564819949, generator := 2 },
  { order := 52435875175126190479447740508185965837690552500527637822603658699938581184513, generator := 7 },
  { order := 21888242871839275222246405745257275088548364400416034343698204186575808495617, generator := 5 },
  { order := 3618502788666131213697322783095070105623107215331596699973092056135872020481, generator := 3 },
  { order := 6864797660130609714981900799081393217269435300143305409394463459185543183397656052122559640661454554977296311391480858037121987999716643812574028291115057151, generator := 3 }]

/-- The known field of an order. -/
def ofOrder? (order : Nat) : Option PrimeField :=
  catalogue.find? (fun field => field.order == order)

end Proximity.PrimeField
