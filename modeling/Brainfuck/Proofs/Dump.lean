import Brainfuck.Snapshot
import Brainfuck.Proofs.JsonText
import Mathlib.Data.List.Basic

/-!
This module contains the law of the dumps: their text is JSON, it is read back as all that a snapshot holds, and
the dumps of two machines are the same only if nothing that is dumped tells the machines apart.
-/

namespace Brainfuck.Snapshot

open JsonValue

def cellMeaning (cell : Nat × UInt8) : Json :=
  .object [("address", .number cell.1 0), ("value", .number cell.2.toNat 0)]

theorem cellMeaning_injective : Function.Injective cellMeaning := by
  intro (address, value) (address', value') h
  have hcell : address = address' ∧ value.toNat = value'.toNat := by
    simpa [cellMeaning, Int.natCast_inj] using h
  rw [hcell.1, UInt8.toNat_inj.mp hcell.2]

theorem decode_text (s : Snapshot)
    : Json.decode s.text
        =
      some (.object [
        ("memory-size", .number s.memorySize 0),
        ("instruction-ptr", .number s.ip 0),
        ("memory-cursor", .number s.pointer 0),
        ("last-input-buffer", .text s.input),
        ("last-output-buffer", .text s.output),
        ("debug-mode?", .text s.debugMode),
        ("memory-dump", .list (s.cells.map cellMeaning))]) := by
  have hcells : meanings (s.cells.map cellJson) = s.cells.map cellMeaning := by
    rw [meanings_eq_map, List.map_map]
    rfl
  rw [text, decode_render]
  simp only [toJson, meaning, memberMeanings, hcells]

theorem text_injective : Function.Injective text := by
  intro s s' h
  have hdecode : Json.decode s.text = Json.decode s'.text := congrArg Json.decode h
  rw [decode_text, decode_text] at hdecode
  simp only [Option.some.injEq, Json.object.injEq, Json.number.injEq, Json.text.injEq, Json.list.injEq,
    List.cons.injEq, Prod.mk.injEq, Int.natCast_inj, true_and, and_true] at hdecode
  obtain ⟨hsize, hip, hpointer, hinput, houtput, hdebug, hcells⟩ := hdecode
  rw [Snapshot.mk.injEq]
  exact ⟨hsize, hip, hpointer, hinput, houtput, hdebug,
    List.map_injective_iff.mpr cellMeaning_injective hcells⟩

section Capture

variable {n n' : Nat} (m : Machine n) (m' : Machine n')

theorem addresses_capture : (capture m).cells.map Prod.fst = List.range n := by
  rw [capture, List.map_map]
  change m.tape.cells.toList.zipIdx.map Prod.snd = List.range n
  rw [List.zipIdx_map_snd, Vector.length_toList, List.range_eq_range']

theorem values_capture : (capture m).cells.map Prod.snd = m.tape.cells.toList := by
  rw [capture, List.map_map]
  change m.tape.cells.toList.zipIdx.map Prod.fst = m.tape.cells.toList
  rw [List.zipIdx_map_fst]

theorem capture_eq_capture_iff
    : capture m = capture m'
        ↔
      (m.tape.cells.toList = m'.tape.cells.toList ∧ m.ip = m'.ip ∧
        m.tape.pointer.val = m'.tape.pointer.val ∧ m.input.text = m'.input.text ∧ m.output = m'.output ∧
        m.debug = m'.debug) := by
  have hdebug : ((if m.debug then "true" else "false") = if m'.debug then "true" else "false")
      ↔ m.debug = m'.debug := by
    cases m.debug <;> cases m'.debug <;> decide
  constructor
  . intro h
    have hcells : m.tape.cells.toList = m'.tape.cells.toList := by
      rw [← values_capture m, ← values_capture m', h]
    simp only [capture, Snapshot.mk.injEq] at h
    obtain ⟨_, hip, hpointer, hinput, houtput, hswitch, _⟩ := h
    exact ⟨hcells, hip, hpointer, hinput, houtput, hdebug.mp hswitch⟩
  . intro ⟨hcells, hip, hpointer, hinput, houtput, hswitch⟩
    have hlength : m.tape.cells.toList.length = n := Vector.length_toList
    have hsize : n = n' := by
      rw [← hlength, hcells, Vector.length_toList]
    simp only [capture, Snapshot.mk.injEq]
    exact ⟨hsize, hip, hpointer, hinput, houtput, hdebug.mpr hswitch, by rw [hcells]⟩

end Capture

/--
A dump is a JSON text that loses nothing: a reader gets the seven members of the snapshot in their order, so
different snapshots have different texts. As a snapshot lists every cell once, from address zero on, the dumps of
two machines are the same if and only if the machines agree on everything that is dumped.
-/
theorem dump_loses_nothing
    : (∀ s : Snapshot,
        Json.decode s.text
          =
        some (.object [
          ("memory-size", .number s.memorySize 0),
          ("instruction-ptr", .number s.ip 0),
          ("memory-cursor", .number s.pointer 0),
          ("last-input-buffer", .text s.input),
          ("last-output-buffer", .text s.output),
          ("debug-mode?", .text s.debugMode),
          ("memory-dump", .list (s.cells.map fun (address, value) =>
            .object [("address", .number address 0), ("value", .number value.toNat 0)]))])) ∧
      Function.Injective text ∧
      (∀ (n : Nat) (m : Machine n),
        (capture m).cells.map Prod.fst = List.range n ∧
        (capture m).cells.map Prod.snd = m.tape.cells.toList) ∧
      (∀ (n n' : Nat) (m : Machine n) (m' : Machine n'),
        (capture m).text = (capture m').text
          ↔
        (m.tape.cells.toList = m'.tape.cells.toList ∧ m.ip = m'.ip ∧
          m.tape.pointer.val = m'.tape.pointer.val ∧ m.input.text = m'.input.text ∧ m.output = m'.output ∧
          m.debug = m'.debug)) := by
  refine ⟨decode_text, text_injective, fun n m => ⟨addresses_capture m, values_capture m⟩, ?_⟩
  intro n n' m m'
  rw [text_injective.eq_iff, capture_eq_capture_iff]

end Brainfuck.Snapshot
