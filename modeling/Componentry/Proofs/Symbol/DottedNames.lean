import Componentry.ClassName
import Mathlib.Data.List.Infix

/-!
# Reading and writing dotted names

A full name is written by putting dots between the segments of a class name, and it is read by
taking the segments between the dots, except for empty ones. So a name that is written from segments
without dots is read back, unless a segment is empty, and a text that is read and written again has
lost its empty segments and nothing else.

## Main definitions

* `ClassName.IsSegment` — a segment of a text between dots
* `ClassName.IsProper` — no segment of the name is empty or has a dot in it

## Main results

* `ClassName.mem_pieces_iff` — the pieces of a text are what stands between its marks
* `ClassName.segments_dotted` — segments are read back from the text that they are joined to
* `ClassName.parse_text_iff` — which names are read back
* `ClassName.dotted_names` — reading and writing names, one after the other
-/

namespace Componentry

namespace ClassName

/-! ### Pieces of a text -/

section Pieces

variable {mark : Char} {cs p : List Char}

/-- A stretch without marks that stands between two neighbouring marks, when one mark is put before
the text and one behind it. -/
def IsPiece (mark : Char) (cs p : List Char) : Prop :=
  mark ∉ p ∧ mark :: p ++ [mark] <:+: mark :: cs ++ [mark]

theorem pieces_eq_splitOn (mark : Char) (cs : List Char) : pieces mark cs = cs.splitOn mark := by
  induction cs with
  | nil => rfl
  | cons c rest ih =>
    rw [pieces, List.splitOn_cons_eq_if_modifyHead, ← ih]
    by_cases found : c = mark
    · simp [found]
    · simp only [found, if_false, beq_iff_eq]
      cases split : pieces mark rest with
      | nil => exact absurd split (pieces_ne_nil mark rest)
      | cons q qs => rfl

/-- A text with a mark before it and one behind it is made of its pieces, each with the mark before
it. -/
theorem flatMap_pieces (mark : Char) (cs : List Char) :
    (pieces mark cs).flatMap (mark :: ·) ++ [mark] = mark :: cs ++ [mark] := by
  induction cs with
  | nil => rfl
  | cons c rest ih =>
    by_cases found : c = mark
    · simp [pieces, found, ih]
    · cases split : pieces mark rest with
      | nil => exact absurd split (pieces_ne_nil mark rest)
      | cons q qs =>
        rw [split] at ih
        simpa [pieces, found, split] using ih

theorem notMem_of_mem_pieces (member : p ∈ pieces mark cs) : mark ∉ p := by
  induction cs generalizing p with
  | nil => simp_all [pieces]
  | cons c rest ih =>
    by_cases found : c = mark
    · simp only [pieces, found, if_true, List.mem_cons] at member
      rcases member with rfl | member
      · exact List.not_mem_nil
      · exact ih member
    · cases split : pieces mark rest with
      | nil => exact absurd split (pieces_ne_nil mark rest)
      | cons q qs =>
        simp only [pieces, found, if_false, split, List.mem_cons] at member
        rw [split] at ih
        rcases member with rfl | member
        · simp [Ne.symm found, ih List.mem_cons_self]
        · exact ih (List.mem_cons_of_mem q member)

/-- The pieces of a text are what stands between its marks. -/
theorem mem_pieces_iff : p ∈ pieces mark cs ↔ IsPiece mark cs p := by
  constructor
  · intro member
    refine ⟨notMem_of_mem_pieces member, ?_⟩
    obtain ⟨before, after, split⟩ := List.append_of_mem member
    -- Whatever comes behind the piece starts with a mark.
    obtain ⟨rest, marked⟩ : ∃ rest, after.flatMap (mark :: ·) ++ [mark] = mark :: rest := by
      cases after with
      | nil => exact ⟨[], rfl⟩
      | cons q qs => exact ⟨q ++ qs.flatMap (mark :: ·) ++ [mark], by simp⟩
    refine ⟨before.flatMap (mark :: ·), rest, ?_⟩
    calc before.flatMap (mark :: ·) ++ (mark :: p ++ [mark]) ++ rest
        = before.flatMap (mark :: ·) ++ (mark :: p ++ mark :: rest) := by simp
      _ = (before ++ p :: after).flatMap (mark :: ·) ++ [mark] := by
          rw [← marked, List.flatMap_append, List.flatMap_cons, List.append_assoc,
            List.append_assoc]
      _ = mark :: cs ++ [mark] := by rw [← split, flatMap_pieces]
  · rintro ⟨free, before, after, surrounded⟩
    -- Splitting both sides at the marks: the piece stands neither first nor last, so it is a piece
    -- of the text.
    have whole : (before ++ mark :: (p ++ mark :: after)).splitOn mark =
        ([] ++ mark :: (cs ++ mark :: [])).splitOn mark := by
      congr 1
      simpa using surrounded
    simp only [List.splitOn_append_cons_self, List.splitOn_eq_singleton free,
      List.splitOn_nil] at whole
    obtain ⟨first, others, head⟩ := List.exists_cons_of_ne_nil (List.splitOn_ne_nil mark before)
    obtain ⟨inits, last, tail⟩ : ∃ inits last, after.splitOn mark = inits ++ [last] :=
      ⟨_, _, (List.dropLast_concat_getLast (List.splitOn_ne_nil mark after)).symm⟩
    rw [head, tail, ← pieces_eq_splitOn mark cs] at whole
    have ends : (others ++ p :: inits) ++ [last] = pieces mark cs ++ [[]] := by
      simpa using (List.cons.inj whole).2
    rw [← List.append_inj_left' ends rfl]
    exact List.mem_append_right others List.mem_cons_self

end Pieces

/-! ### Segments -/

/-- A segment of a text: what stands between two neighbouring dots, or between a dot and an end of
the text, or is the whole of a text without dots. -/
def IsSegment (text segment : String) : Prop := IsPiece '.' text.toList segment.toList

/-- No segment is empty or has a dot in it. -/
def ProperSegments (segments : List String) : Prop := ∀ s ∈ segments, s ≠ "" ∧ '.' ∉ s.toList

/-- The segments with dots between them. -/
def dotted (segments : List String) : String :=
  String.ofList (['.'].intercalate (segments.map String.toList))

variable {ss : List String} {c : ClassName}

theorem filter_eq_self_of_nil_notMem {ps : List (List Char)} (full : [] ∉ ps) :
    ps.filter (!·.isEmpty) = ps := by
  rw [List.filter_eq_self]
  intro p member
  cases p with
  | nil => exact absurd member full
  | cons _ _ => rfl

theorem ProperSegments.nil_notMem (proper : ProperSegments ss) : [] ∉ ss.map String.toList := by
  intro member
  obtain ⟨s, inside, nothing⟩ := List.mem_map.mp member
  exact (proper s inside).1 (String.toList_eq_nil_iff.mp nothing)

theorem properSegments_segments (text : String) : ProperSegments (segments text) := by
  intro s member
  obtain ⟨p, kept, rfl⟩ := List.mem_map.mp member
  obtain ⟨piece, nonempty⟩ := List.mem_filter.mp kept
  refine ⟨?_, by simpa using notMem_of_mem_pieces piece⟩
  intro empty
  rw [String.ofList_eq_empty_iff] at empty
  simp [empty] at nonempty

/-- Segments are the pieces of the text that they are joined to. -/
theorem pieces_dotted (proper : ProperSegments ss) (nonempty : ss ≠ []) :
    pieces '.' (dotted ss).toList = ss.map String.toList := by
  rw [dotted, String.toList_ofList, pieces_eq_splitOn]
  refine List.splitOn_intercalate '.' ?_ (by simpa using nonempty)
  intro p member
  obtain ⟨s, inside, rfl⟩ := List.mem_map.mp member
  exact (proper s inside).2

/-- Segments are read back from the text that they are joined to. -/
theorem segments_dotted (proper : ProperSegments ss) : segments (dotted ss) = ss := by
  by_cases nonempty : ss = []
  · rw [nonempty]
    rfl
  · rw [segments, pieces_dotted proper nonempty, filter_eq_self_of_nil_notMem proper.nil_notMem,
      List.map_map]
    simp [Function.comp_def]

/-- A text is its pieces with dots between them. -/
theorem dotted_pieces (text : String) :
    dotted ((pieces '.' text.toList).map String.ofList) = text := by
  rw [dotted, List.map_map]
  simp [Function.comp_def, pieces_eq_splitOn, List.intercalate_splitOn]

/-! ### Names -/

theorem ofSegments_concat (c : ClassName) : ofSegments (c.package ++ [c.name]) = c := by
  simp [ofSegments]

theorem concat_ofSegments (nonempty : ss ≠ []) :
    (ofSegments ss).package ++ [(ofSegments ss).name] = ss := by
  rw [ofSegments, List.getLastD_eq_getLast?, List.getLast?_eq_some_getLast nonempty]
  exact List.dropLast_concat_getLast nonempty

/-- A name that is made of segments is written with dots between them. -/
theorem text_ofSegments (ss : List String) : (ofSegments ss).text = dotted ss := by
  by_cases empty : ss = []
  · rw [empty]
    rfl
  · rw [text, joined, concat_ofSegments empty, dotted]

/-- No segment of the name is empty or has a dot in it. -/
def IsProper (c : ClassName) : Prop := ProperSegments (c.package ++ [c.name])

theorem parse_text (proper : c.IsProper) : parse c.text = c := by
  have written : c.text = dotted (c.package ++ [c.name]) := rfl
  rw [parse, written, segments_dotted proper, ofSegments_concat]

/-- A name is read back exactly if it is proper or is the empty name outside all packages. -/
theorem parse_text_iff (c : ClassName) : parse c.text = c ↔ c.IsProper ∨ c = topLevel "" := by
  constructor
  · intro back
    by_cases empty : segments c.text = []
    · refine Or.inr ?_
      rw [← back, parse, empty]
      rfl
    · -- The segments of the name were read from a text, and what is read is proper.
      have parts := concat_ofSegments empty
      rw [← parse, back] at parts
      refine Or.inl ?_
      rw [IsProper, parts]
      exact properSegments_segments c.text
  · rintro (proper | rfl)
    · exact parse_text proper
    · rfl

/-- A text is read and written unchanged exactly if it is empty or none of its pieces is. -/
theorem text_parse_eq_iff (text : String) :
    (parse text).text = text ↔ text = "" ∨ [] ∉ pieces '.' text.toList := by
  rw [parse, text_ofSegments]
  constructor
  · intro same
    by_cases empty : segments text = []
    · refine Or.inl ?_
      rw [← same, empty]
      rfl
    · -- The pieces of the text are its segments, and none of these is empty.
      have proper := properSegments_segments text
      have split := pieces_dotted proper empty
      rw [same] at split
      rw [split]
      exact Or.inr proper.nil_notMem
  · rintro (rfl | full)
    · rfl
    · rw [segments, filter_eq_self_of_nil_notMem full, dotted_pieces]

/-- **Reading and writing names.** A text that was read and written is read as before, and it is the
text that it was exactly if that is empty or has no empty segment. Names whose segments are not
empty and have no dots are read back from their texts, and so is the empty name outside all
packages, but no other name. Two of the former with the same text are the same name. -/
theorem dotted_names :
    (∀ text, parse (parse text).text = parse text) ∧
    (∀ text, (parse text).text = text ↔ text = "" ∨ ¬ IsSegment text "") ∧
    (∀ c : ClassName, parse c.text = c ↔ c.IsProper ∨ c = topLevel "") ∧
    ∀ c d : ClassName, c.IsProper → d.IsProper → c.text = d.text → c = d := by
  refine ⟨?_, ?_, parse_text_iff, ?_⟩
  · intro text
    rw [parse, parse, text_ofSegments, segments_dotted (properSegments_segments text)]
  · intro text
    rw [text_parse_eq_iff, mem_pieces_iff]
    rfl
  · intro c d proper proper' same
    rw [← parse_text proper, same, parse_text proper']

end ClassName

namespace Sample

open ClassName

/-- A window of a component library. -/
def frame : ClassName := ⟨["javax", "swing"], "JFrame"⟩

/-- The name of the window is read back from its text, which no other name without dots and empty
segments has. A text with superfluous dots is read as the same name and has other dots when it is
written again. -/
theorem frame_dotted :
    frame.IsProper ∧ parse "javax.swing.JFrame" = frame ∧
    (∀ c : ClassName, c.IsProper → c.text = "javax.swing.JFrame" → c = frame) ∧
    parse ".javax..swing.JFrame." = frame ∧ IsSegment ".javax..swing.JFrame." "" ∧
    (parse ".javax..swing.JFrame.").text ≠ ".javax..swing.JFrame." := by
  obtain ⟨-, unchanged, readBack, injective⟩ := dotted_names
  have proper : frame.IsProper := by
    unfold IsProper ProperSegments
    decide +kernel
  have empty : IsSegment ".javax..swing.JFrame." "" := by
    unfold IsSegment IsPiece
    decide +kernel
  refine ⟨proper, (readBack frame).mpr (Or.inl proper), ?_, by decide +kernel, empty, ?_⟩
  · intro c proper' same
    exact injective c frame proper' proper same
  · rw [Ne, unchanged]
    rintro (nothing | full)
    · exact absurd nothing (by decide)
    · exact full empty

end Sample

end Componentry
