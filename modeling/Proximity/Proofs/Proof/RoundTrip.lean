import Mathlib
import Proximity.Proof.Export
import Proximity.Proof.Import
import Proximity.Proofs.Field.Reading
import Proximity.Proofs.Prover.Query
import Proximity.Proofs.Text.Hex
import Proximity.Proofs.Text.Numeral

/-! Proofs as documents and back: what is exported is read as the proof it came from, and whatever is read
as a proof can be exported again. -/

namespace Proximity

variable {field : PrimeField}

/-- An element is read back from its numeral, which is never too long. -/
theorem toInteger_toDocument (element : Element field) :
    element.toDocument.toInteger = .ok element.value := by
  -- A residue is below the order, whose own numeral is not too long.
  have short := Nat.lt_trans element.value_lt field.order_lt
  rw [Element.toDocument, Document.toInteger, Text.readInteger?_writeInteger short]

/-- A digest is read back from its digits. -/
theorem toBytes_digestDocument (digest : Bytes) : (digestDocument digest).toBytes = .ok digest := by
  rw [digestDocument, Document.toBytes, Text.readHex?_writeHex]

namespace Document

/-- Elements are read as their least residues. -/
theorem integers_toDocument (elements : List (Element field)) :
    (list (elements.map Element.toDocument)).integers
      = .ok (elements.map fun element => (element.value : Int)) := by
  -- The items are the elements' documents, one by one.
  rw [integers, items, ok_bind]
  exact collect_map_eq_ok fun element _ => toInteger_toDocument element

/-- The rows of a table are read as its least residues. -/
theorem integerRows_toDocument (table : Table (Element field)) :
    (list (table.rows.map fun row => list (row.map Element.toDocument))).integerRows
      = .ok table.residues := by
  -- Each row is a list of elements.
  rw [integerRows, items, ok_bind]
  exact collect_map_eq_ok fun row _ => integers_toDocument row

/-- Digests are read back in their order. -/
theorem byteStrings_digestDocument (digests : List Bytes) :
    (list (digests.map digestDocument)).byteStrings = .ok digests := by
  rw [byteStrings, items, ok_bind, collect_map_eq_ok fun digest _ => toBytes_digestDocument digest,
    List.map_id']

/-- Levels of digests are read back, those without digests among them. -/
theorem byteLevels_digestDocument (levels : List (List Bytes)) :
    (list (levels.map fun level => list (level.map digestDocument))).byteLevels = .ok levels := by
  rw [byteLevels, items, ok_bind, collect_map_eq_ok fun level _ => byteStrings_digestDocument level,
    List.map_id']

end Document

/-- An opening is read from a document exactly if the members spell its parts. -/
theorem LayerOpening.ofDocument_eq_ok_iff {foldingFactor : Int} {document : Document}
    {opening : LayerOpening field} :
    LayerOpening.ofDocument field foldingFactor document = .ok opening ↔
      (document.member "values" >>= Document.integerRows) = .ok opening.values.residues ∧
      opening.values.FillsWidth foldingFactor ∧
      (document.member "depth" >>= Document.toInteger) = .ok opening.proof.depth ∧
      (document.member "nodes" >>= Document.byteLevels) = .ok opening.proof.nodes := by
  -- Every step of the reader is one of the equations; rows are read together with their table.
  simp only [LayerOpening.ofDocument, bind_eq_ok_iff, readTable_eq_ok_iff, pure_eq_ok,
    Except.ok.injEq]
  constructor
  · -- What the reader has found on its way is what the members spell.
    intro read
    obtain ⟨values, found, _, rows, table, ⟨rfl, fills⟩, deep, depthFound, depth, spelled, levels,
      levelsFound, nodes, listed, rfl⟩ := read
    exact ⟨⟨values, found, rows⟩, fills, ⟨deep, depthFound, spelled⟩, levels, levelsFound, listed⟩
  · -- Members that spell all parts take the reader through.
    intro spelled
    obtain ⟨⟨values, found, rows⟩, fills, ⟨deep, depthFound, depth⟩, levels, levelsFound, nodes⟩ :=
      spelled
    exact ⟨values, found, _, rows, _, ⟨rfl, fills⟩, deep, depthFound, _, depth, levels, levelsFound, _,
      nodes, rfl⟩

/-- An opening is read back from its own document if its width can be told. -/
theorem LayerOpening.ofDocument_toDocument_iff {foldingFactor : Int} {opening : LayerOpening field} :
    LayerOpening.ofDocument field foldingFactor opening.toDocument = .ok opening ↔
      opening.values.FillsWidth foldingFactor := by
  -- Rows and digests are read back as they were written.
  have values : (opening.toDocument.member "values" >>= Document.integerRows)
      = .ok opening.values.residues := Document.integerRows_toDocument opening.values
  have nodes : (opening.toDocument.member "nodes" >>= Document.byteLevels)
      = .ok opening.proof.nodes := Document.byteLevels_digestDocument opening.proof.nodes
  rw [LayerOpening.ofDocument_eq_ok_iff]
  exact ⟨fun read => read.2.1, fun fills => ⟨values, fills, rfl, nodes⟩⟩

namespace Proof

/-- A proof is read from a document exactly if the members spell its parts. -/
theorem ofDocument_eq_ok_iff {document : Document} {proof : Proof field} :
    Proof.ofDocument field document = .ok proof ↔
      ∃ openings remainder,
        (document.member "foldingFactor" >>= Document.toInteger) = .ok proof.foldingFactor ∧
        (document.member "layers" >>= Document.items) = .ok openings ∧
        List.Forall₂ (fun opening layer =>
          LayerOpening.ofDocument field proof.foldingFactor opening = .ok layer)
          openings proof.layers ∧
        (document.member "remainder" >>= Document.integers)
          = .ok (remainder.toList.map fun element => (element.value : Int)) ∧
        proof.remainder = some remainder := by
  -- The folding factor is read first, since the openings are read with it.
  simp only [Proof.ofDocument, bind_eq_ok_iff, readVector_eq_ok_iff, collect_eq_ok_iff, pure_eq_ok,
    Except.ok.injEq]
  constructor
  · -- Reading goes through the members in this order.
    intro read
    obtain ⟨factor, factorFound, _, spelled, layers, layersFound, openings, listed, _, each, last,
      lastFound, _, values, remainder, rfl, rfl⟩ := read
    exact ⟨openings, remainder, ⟨factor, factorFound, spelled⟩, ⟨layers, layersFound, listed⟩, each,
      ⟨last, lastFound, values⟩, rfl⟩
  · -- The order in which the parts are asked for does not matter to them.
    intro spelled
    obtain ⟨openings, remainder, ⟨factor, factorFound, spelled⟩, ⟨layers, layersFound, listed⟩, each,
      ⟨last, lastFound, values⟩, sent⟩ := spelled
    exact ⟨factor, factorFound, _, spelled, layers, layersFound, openings, listed, _, each, last,
      lastFound, _, values, remainder, rfl, by rw [← sent]⟩

/-- A proof that has a remainder, and no opening without rows of another width than the folding factor. -/
structure Exportable (proof : Proof field) : Prop where
  remainder_eq : ∃ remainder, proof.remainder = some remainder
  fillsWidth : ∀ opening ∈ proof.layers, opening.values.FillsWidth proof.foldingFactor

/-- The document of a complete proof is read as the same proof if the openings are read back. -/
theorem ofDocument_toDocument_iff {proof : Proof field} {remainder : Array (Element field)}
    {document : Document} (sent : proof.remainder = some remainder)
    (exported : proof.toDocument = .ok document) :
    Proof.ofDocument field document = .ok proof ↔
      ∀ opening ∈ proof.layers,
        LayerOpening.ofDocument field proof.foldingFactor opening.toDocument = .ok opening := by
  simp only [toDocument, sent, Except.ok.injEq] at exported
  -- A complete proof has one document, the list of its members.
  subst exported
  rw [ofDocument_eq_ok_iff]
  -- All members but the openings are read back whatever they are.
  constructor
  · -- The openings that were read are those of the document.
    intro read
    obtain ⟨openings, _, _, listed, each, _⟩ := read
    obtain rfl := Except.ok.inj listed
    rwa [List.forall₂_map_left_iff, List.forall₂_same] at each
  · -- The members spell the proof, each opening by its own document.
    intro each
    refine ⟨proof.layers.map LayerOpening.toDocument, remainder, rfl, rfl, ?_,
      Document.integers_toDocument remainder.toList, sent⟩
    rwa [List.forall₂_map_left_iff, List.forall₂_same]

/-- A proof survives its own document exactly if it is complete and every width in it can be told. -/
theorem exists_ofDocument_toDocument_iff {proof : Proof field} :
    (∃ document, proof.toDocument = .ok document ∧ Proof.ofDocument field document = .ok proof) ↔
      proof.Exportable := by
  -- What becomes of the proof turns on its remainder.
  cases sent : proof.remainder with
  | none =>
    -- Without a remainder there is no document.
    constructor
    · intro survives
      obtain ⟨document, exported, _⟩ := survives
      simp [toDocument, sent] at exported
    · intro exportable
      obtain ⟨remainder, found⟩ := exportable.remainder_eq
      simp [sent] at found
  | some remainder =>
    have exported : ∃ document, proof.toDocument = .ok document := by simp [toDocument, sent]
    constructor
    · -- A proof that survives has had all of its openings read back.
      intro survives
      obtain ⟨document, exported, read⟩ := survives
      have each := (ofDocument_toDocument_iff sent exported).mp read
      exact ⟨⟨remainder, sent⟩, fun opening member =>
        LayerOpening.ofDocument_toDocument_iff.mp (each opening member)⟩
    · -- With every width told, all openings are read back.
      intro exportable
      obtain ⟨document, exported⟩ := exported
      refine ⟨document, exported, (ofDocument_toDocument_iff sent exported).mpr ?_⟩
      exact fun opening member =>
        LayerOpening.ofDocument_toDocument_iff.mpr (exportable.fillsWidth opening member)

/-- What is read from a document can be exported. -/
theorem exportable_of_ofDocument {document : Document} {proof : Proof field}
    (read : Proof.ofDocument field document = .ok proof) : proof.Exportable := by
  -- Only a complete proof can be read.
  obtain ⟨openings, remainder, _, _, each, _, sent⟩ := ofDocument_eq_ok_iff.mp read
  refine ⟨⟨remainder, sent⟩, fun opening member => ?_⟩
  -- Each opening was read under the proof's own folding factor.
  obtain ⟨index, inside, rfl⟩ := List.getElem_of_mem member
  have among : index < openings.length := by rwa [each.length_eq]
  exact (LayerOpening.ofDocument_eq_ok_iff.mp (each.get among inside)).2.1

end Proof

/-- No layer is opened without any row. -/
theorem height_pos_of_openLayers {hasher : Hasher} {factor size : Nat}
    {layers : List (Layer field hasher)} {positions : List Int} {openings : List (LayerOpening field)}
    (opened : Prover.openLayers factor layers positions size = .ok openings) :
    ∀ opening ∈ openings, 0 < opening.values.height := by
  intro opening member
  -- An opening comes from a query of its layer.
  obtain ⟨index, inside, rfl⟩ := List.getElem_of_mem member
  obtain ⟨layer, rows, _, _, queried⟩ := (Prover.openLayers_cases opened).2 index inside
  obtain ⟨issued, height, _⟩ := Layer.query_cases queried
  -- The tree has refused to prove no leaf, and a row is selected for each leaf.
  obtain ⟨names, _⟩ := layer.tree.proveBatch_eq_ok_iff.mp issued
  rw [height]
  exact List.length_pos_iff.mpr names.nonempty

/-- What a prover sends can be exported, whichever layers it holds. -/
theorem exportable_of_prove {prover : Prover field} {positions : List Int} {proof : Proof field}
    (proved : (prover.prove positions).1 = .ok proof) : proof.Exportable := by
  -- An answer ends with a remainder.
  obtain ⟨last, openings, remainder, _, opened, _, rfl⟩ :=
    Prover.answer_cases (Prover.answer_of_prove proved)
  -- The width only has to be told for openings without rows.
  exact ⟨⟨remainder, rfl⟩, fun opening member low =>
    absurd low (height_pos_of_openLayers opened opening member).ne'⟩

/-- Export loses nothing: a proof is read back from its document exactly if it has a remainder and its
openings without rows are as wide as the folding factor. What a prover sends is always read back. -/
theorem proofs_survive_export :
    (∀ proof : Proof field, proof.Exportable ↔
      ∃ document, proof.toDocument = .ok document ∧ Proof.ofDocument field document = .ok proof) ∧
    ∀ (prover : Prover field) (positions : List Int) (proof : Proof field),
      (prover.prove positions).1 = .ok proof →
        ∃ document, proof.toDocument = .ok document ∧ Proof.ofDocument field document = .ok proof :=
  ⟨fun _ => Proof.exists_ofDocument_toDocument_iff.symm, fun _ _ _ proved =>
    Proof.exists_ofDocument_toDocument_iff.mpr (exportable_of_prove proved)⟩

/-- A proof with an opening without rows, one without columns, and one from a tree of negative depth whose
levels lack digests or bytes; no remainder is left. -/
def sparseProof : Proof seventeen where
  layers := [
    ⟨Table.empty 3, ⟨0, []⟩⟩,
    ⟨⟨2, 0, #[], rfl⟩, ⟨5, [[], []]⟩⟩,
    ⟨⟨1, 2, #[Element.ofNat 16, 0], rfl⟩, ⟨-7, [[], [[]], [[0, 255], [16]]]⟩⟩]
  remainder := some #[]
  foldingFactor := 3

/-- The sparse proof is read back, and so is the proof for three positions after two rounds. -/
theorem proofs_survive_export_sparse_and_sent :
    sparseProof.Exportable ∧
    (∃ document, sparseProof.toDocument = .ok document ∧
      Proof.ofDocument seventeen document = .ok sparseProof) ∧
    ∃ sent, ((foursProver.build freshChannel sixteenValues).2.1.prove [13, 2, 1]).1 = .ok sent ∧
      ∃ document, sent.toDocument = .ok document ∧
        Proof.ofDocument seventeen document = .ok sent := by
  -- The one opening without rows has the width of the folding factor.
  have exportable : sparseProof.Exportable := ⟨⟨#[], rfl⟩, by decide⟩
  refine ⟨exportable, (proofs_survive_export.1 sparseProof).mp exportable, ?_⟩
  -- The prover has sixteen positions to answer.
  have answered : ((foursProver.build freshChannel sixteenValues).2.1.prove [13, 2, 1]).1.isOk := by
    decide +kernel
  -- A query that is not refused has sent a proof.
  rcases proved : ((foursProver.build freshChannel sixteenValues).2.1.prove [13, 2, 1]).1 with _ | sent
  · simp [proved, Except.isOk, Except.toBool] at answered
  · exact ⟨sent, rfl, proofs_survive_export.2 _ _ sent proved⟩

/-- Import ends in a normal form: whatever is read as a proof has rectangular openings and least residues
only, and has an export that is read as the same proof, which no other proof that was read shares. -/
theorem imported_proofs_canonical {document : Document} {proof : Proof field}
    (read : Proof.ofDocument field document = .ok proof) :
    (∀ opening ∈ proof.layers, opening.values.FillsWidth proof.foldingFactor ∧
      ∀ row ∈ opening.values.rows, row.length = opening.values.width ∧
        ∀ element ∈ row, element.value < field.order) ∧
    ∃ remainder exported, proof.remainder = some remainder ∧
      (∀ element ∈ remainder, element.value < field.order) ∧
      proof.toDocument = .ok exported ∧ Proof.ofDocument field exported = .ok proof ∧
      ∀ (other : Document) (same : Proof field), Proof.ofDocument field other = .ok same →
        (same.toDocument = .ok exported ↔ same = proof) := by
  -- Whatever is read is complete, and its widths were told by its own folding factor.
  have exportable := Proof.exportable_of_ofDocument read
  obtain ⟨remainder, sent⟩ := exportable.remainder_eq
  obtain ⟨exported, written, readBack⟩ := Proof.exists_ofDocument_toDocument_iff.mpr exportable
  refine ⟨fun opening member => ⟨exportable.fillsWidth opening member, fun row inRows =>
    ⟨Table.length_of_mem_rows inRows, fun element _ => element.value_lt⟩⟩, remainder, exported, sent,
    fun element _ => element.value_lt, written, readBack, fun other same otherRead => ⟨?_, ?_⟩⟩
  · -- The common export is read as either of the two.
    intro sameWritten
    obtain ⟨document, otherWritten, otherReadBack⟩ :=
      Proof.exists_ofDocument_toDocument_iff.mpr (Proof.exportable_of_ofDocument otherRead)
    obtain rfl := Except.ok.inj (sameWritten.symm.trans otherWritten)
    exact Except.ok.inj (otherReadBack.symm.trans readBack)
  · -- The same proof has the same export.
    rintro rfl
    exact written

/-- A document whose integers are spelled as padded numerals, single characters, truth values and keys,
and whose bytes are spelled in digits of both cases with gaps. -/
def untidyDocument : Document :=
  .object [
    ("foldingFactor", .text " +0_3\n"),
    ("layers", .list [
      .object [("values", .text "12"), ("depth", .boolean true),
        ("nodes", .list [.text "", .list [.text "0A fF"]])],
      .object [("nodes", .text ""), ("depth", .text "-7"), ("values", .object [])]]),
    ("remainder", .object [("7", .null), ("1_6", .null)])]

/-- The proof that the untidy document spells. -/
def untidyProof : Proof seventeen where
  layers := [
    ⟨⟨2, 1, #[Element.ofNat 1, Element.ofNat 2], rfl⟩, ⟨1, [[], [[10, 255]]]⟩⟩,
    ⟨Table.empty 3, ⟨-7, []⟩⟩]
  remainder := some #[Element.ofNat 7, Element.ofNat 16]
  foldingFactor := 3

/-- The untidy document is read, and the tidy export of what it spells is read as the same. -/
theorem imported_proofs_canonical_untidy :
    Proof.ofDocument seventeen untidyDocument = .ok untidyProof ∧
    ∃ exported, untidyProof.toDocument = .ok exported ∧
      Proof.ofDocument seventeen exported = .ok untidyProof := by
  have read : Proof.ofDocument seventeen untidyDocument = .ok untidyProof := rfl
  obtain ⟨_, _, exported, _, _, written, readBack, _⟩ := imported_proofs_canonical read
  exact ⟨read, exported, written, readBack⟩

end Proximity
