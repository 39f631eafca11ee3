import Componentry.Proofs.Bytecode.Decoding

/-!
# Where instructions stand

Carrying out directives writes their instructions one behind the other, without gaps. What is known
of the offsets is gathered here, for code that is put together from parts.

## Main definitions

* `Assembly.placed` — the instructions that directives write, with their offsets
* `Stretch` — instructions that fill the code between two offsets

## Main results

* `Assembly.placed_append` — parts of the code are placed one behind the other
* `Assembly.stretch_run` — the instructions of directives fill the code that these write
* `assemble_operations_placed` — instructions are read back where they were placed
-/

namespace Componentry

/-! ### Stretches of code -/

/-- The instructions stand between the two offsets, the first of them, if there is one, at the
beginning; if there is none the offsets are the same. -/
structure Stretch (start stop : Nat) (placed : List (Nat × Instruction)) : Prop where
  le : start ≤ stop
  within : ∀ e ∈ placed, start ≤ e.1 ∧ e.1 < stop
  first : start = stop ∨ ∃ i, (start, i) ∈ placed

namespace Stretch

variable {start middle stop : Nat} {xs ys : List (Nat × Instruction)}

theorem nil (start : Nat) : Stretch start start [] :=
  ⟨Nat.le_refl _, by simp, Or.inl rfl⟩

theorem single {i : Instruction} (h : start < stop) : Stretch start stop [(start, i)] :=
  ⟨Nat.le_of_lt h, by simpa using h, Or.inr ⟨i, List.mem_singleton_self _⟩⟩

theorem append (h : Stretch start middle xs) (h' : Stretch middle stop ys) :
    Stretch start stop (xs ++ ys) := by
  have before := h.le
  have behind := h'.le
  refine ⟨by omega, ?_, ?_⟩
  · intro e member
    rcases List.mem_append.mp member with left | right
    · have bounds := h.within e left
      omega
    · have bounds := h'.within e right
      omega
  · rcases h.first with rfl | ⟨i, found⟩
    · -- Nothing is written before the second part.
      exact h'.first.imp id fun ⟨i, found⟩ => ⟨i, List.mem_append_right _ found⟩
    · exact Or.inr ⟨i, List.mem_append_left _ found⟩

/-- A stretch with an instruction is not empty. -/
theorem lt_of_mem (h : Stretch start stop xs) {e : Nat × Instruction} (member : e ∈ xs) :
    start < stop := by
  have bounds := h.within e member
  omega

end Stretch

/-! ### Placed instructions -/

theorem Instruction.length_pos_of_encode {i : Instruction} {pool pool' : Pool} {bytes : List UInt8}
    (encoded : i.encode pool = (pool', .ok bytes)) : 0 < bytes.length := by
  obtain ⟨op, operands, rfl, -⟩ := Instruction.encoded_encode encoded
  exact Nat.succ_pos _

/-- The directive says nothing of slots. -/
def Directive.isPlain : Directive → Bool
  | line _ | instruction _ => true
  | enter _ _ | leave _ | abort _ => false

namespace Assembly

/-- The instruction that a directive writes, at the end of the code. -/
def placedStep (a : Assembly) (d : Directive) : List (Nat × Instruction) :=
  (Directive.instructions [d]).map (a.emitter.offset, ·)

/-- The instructions that directives write, with their offsets, up to the first failure. -/
def placed (a : Assembly) : List Directive → List (Nat × Instruction)
  | [] => []
  | d :: ds =>
    match a.step d with
    | .ok b => a.placedStep d ++ b.placed ds
    | .error _ => []

variable {a b c : Assembly} {d : Directive} {ds es : List Directive}

theorem placed_cons (stepped : a.step d = .ok b) :
    a.placed (d :: ds) = a.placedStep d ++ b.placed ds := by
  simp only [placed, stepped]

/-- Parts of the code are placed one behind the other. -/
theorem placed_append (h : a.run ds = .ok b) :
    a.placed (ds ++ es) = a.placed ds ++ b.placed es := by
  induction ds generalizing a with
  | nil =>
    cases h
    rfl
  | cons d ds ih =>
    rw [run] at h
    split at h
    · rename_i next stepped
      rw [List.cons_append, placed_cons stepped, placed_cons stepped, ih h, List.append_assoc]
    · cases h

/-- All instructions of directives that are carried out to the end are placed. -/
theorem map_snd_placed (h : a.run ds = .ok b) :
    (a.placed ds).map Prod.snd = Directive.instructions ds := by
  induction ds generalizing a with
  | nil => rfl
  | cons d ds ih =>
    rw [run] at h
    split at h
    · rename_i next stepped
      have head : (a.placedStep d).map Prod.snd = Directive.instructions [d] := by
        rw [placedStep, List.map_map]
        exact List.map_id _
      rw [placed_cons stepped, List.map_append, head, ih h, ← Directive.instructions_append,
        List.singleton_append]
    · cases h

theorem stretch_step (h : a.step d = .ok b) :
    Stretch a.emitter.offset b.emitter.offset (a.placedStep d) := by
  cases d with
  | line _ | enter _ _ | leave _ =>
    cases h
    exact .nil _
  | abort _ => cases h
  | instruction i =>
    simp only [step, Emitter.emit] at h
    cases encoded : i.encode a.emitter.pool with
    | mk pool result =>
      rw [encoded] at h
      cases result with
      | error failure => cases h
      | ok bytes =>
        cases h
        have grown := Instruction.length_pos_of_encode encoded
        refine Stretch.single ?_
        simp only [Emitter.offset, Emitter.write, ← Chunk.length_values, Chunk.values_append,
          List.length_append]
        omega

/-- The instructions of directives fill the code that these write. -/
theorem stretch_run (h : a.run ds = .ok b) :
    Stretch a.emitter.offset b.emitter.offset (a.placed ds) := by
  induction ds generalizing a with
  | nil =>
    cases h
    exact .nil _
  | cons d ds ih =>
    rw [run] at h
    split at h
    · rename_i next stepped
      rw [placed_cons stepped]
      exact (stretch_step stepped).append (ih h)
    · cases h

theorem placedStep_eq_zip {pool : Pool} {parts : List (List UInt8)}
    (encoded : List.Forall₂ (Instruction.Encoded pool) (Directive.instructions [d]) parts) :
    a.placedStep d = (offsets a.emitter.offset parts).zip (Directive.instructions [d]) := by
  cases d with
  | line _ | enter _ _ | leave _ | abort _ =>
    obtain rfl := List.forall₂_nil_left_iff.mp encoded
    rfl
  | instruction i =>
    obtain ⟨bytes, rest, -, none, rfl⟩ := List.forall₂_cons_left_iff.mp encoded
    obtain rfl := List.forall₂_nil_left_iff.mp none
    rfl

/-- The bytes that directives write are those of the instructions that they place. -/
theorem placed_eq_zip (h : a.run ds = .ok b) :
    ∃ parts, b.emitter.chunk.values = a.emitter.chunk.values ++ parts.flatten ∧
      List.Forall₂ (Instruction.Encoded b.emitter.pool) (Directive.instructions ds) parts ∧
      a.placed ds = (offsets a.emitter.offset parts).zip (Directive.instructions ds) := by
  induction ds generalizing a with
  | nil =>
    cases h
    exact ⟨[], (List.append_nil _).symm, .nil, rfl⟩
  | cons d ds ih =>
    rw [run] at h
    split at h
    · rename_i next stepped
      obtain ⟨parts₁, values₁, encoded₁, extended₁⟩ := encoded_step stepped
      obtain ⟨parts₂, values₂, encoded₂, placed₂⟩ := ih h
      obtain ⟨-, -, -, extended₂⟩ := encoded_run h
      have offset_eq : next.emitter.offset = a.emitter.offset + parts₁.flatten.length := by
        simp only [Emitter.offset, ← Chunk.length_values, values₁, List.length_append]
      refine ⟨parts₁ ++ parts₂, ?_, ?_, ?_⟩
      · rw [values₂, values₁, List.flatten_append, List.append_assoc]
      · rw [← List.singleton_append, Directive.instructions_append]
        exact List.rel_append (encoded₁.imp fun _ _ encoded => encoded.mono extended₂) encoded₂
      · have same :
            (offsets a.emitter.offset parts₁).length = (Directive.instructions [d]).length := by
          rw [length_offsets, encoded₁.length_eq]
        rw [placed_cons stepped, placedStep_eq_zip encoded₁, placed₂, offset_eq, offsets_append,
          ← List.zip_append same, ← Directive.instructions_append, List.singleton_append]
    · cases h

/-- Directives that are carried out to the end are carried out in two parts. -/
theorem of_run_append (h : a.run (ds ++ es) = .ok c) :
    ∃ b, a.run ds = .ok b ∧ b.run es = .ok c := by
  rw [run_append] at h
  cases first : a.run ds with
  | ok b =>
    rw [first] at h
    exact ⟨b, rfl, h⟩
  | error failure =>
    rw [first] at h
    cases h

/-- Directives that say nothing of slots keep what is known of them. -/
theorem locals_run (h : a.run ds = .ok b) (plain : ∀ d ∈ ds, d.isPlain = true) :
    b.locals = a.locals := by
  induction ds generalizing a with
  | nil =>
    cases h
    rfl
  | cons d ds ih =>
    rw [List.forall_mem_cons] at plain
    rw [run] at h
    split at h
    · rename_i next stepped
      rw [ih h plain.2]
      cases d with
      | line n =>
        cases stepped
        rfl
      | instruction i =>
        simp only [step] at stepped
        split at stepped
        · cases stepped
          rfl
        · cases stepped
      | enter _ _ | leave _ | abort _ => cases plain.1
    · cases h

end Assembly

/-- The instructions of a procedure are read back where they were placed, over the pool that it was
written with and all later ones. -/
theorem assemble_operations_placed {pool later : Pool} {ds : List Directive} {a : Assembly}
    (assembled : assemble pool ds = .ok a) (extended : a.emitter.pool.Extends later) :
    a.emitter.chunk.operations? later =
      some ((Assembly.placed { emitter := .start pool } ds).map fun e =>
        (e.1, e.2.operation later.held)) := by
  obtain ⟨parts, values_eq, encoded, placed⟩ := Assembly.placed_eq_zip assembled
  have written : a.emitter.chunk.values = parts.flatten := values_eq
  have lasting := encoded.imp fun _ _ h => h.mono extended
  have read := Chunk.mapM_operation?_decodeFrom a.emitter.chunk lasting [] written
  rw [← written, List.zip_map_right] at read
  rw [placed]
  exact read

end Componentry
