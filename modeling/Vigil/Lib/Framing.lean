import Mathlib.Data.List.Basic
import Mathlib.Tactic.Common

/-!
# Framing with an end mark

Frames that follow each other, each with an end mark behind it. `unframe` reads them back, and fails
at an empty frame and at a last one without its mark. It accepts exactly the streams of frames that
are not empty and do not contain the mark (`unframe_eq_some_iff`).
-/

namespace Framing

variable {α : Type*}

/-- The stream of some frames. -/
def stream (mark : α) (frames : List (List α)) : List α := frames.flatMap fun f => f ++ [mark]

/-- A stream is its first frame, the mark, and the stream of the others. -/
theorem stream_cons (mark : α) (frame : List α) (frames : List (List α)) :
    stream mark (frame :: frames) = frame ++ mark :: stream mark frames := by
  rw [stream, List.flatMap_cons, List.append_assoc]
  rfl

/-- A stream and the beginning of a next frame are the frames with marks between them. -/
theorem stream_append_eq_intercalate (frames : List (List α)) (rest : List α) :
    stream mark frames ++ rest = [mark].intercalate (frames ++ [rest]) := by
  induction frames with
  | nil => simp [stream]
  | cons frame frames ih =>
    rw [List.cons_append, List.intercalate_cons_of_ne_nil (by simp), ← ih, stream_cons]
    simp

/-- A part of a stream in which a mark has come begins with the first frame. -/
theorem exists_of_append_eq {mark : α} {frame rest part later : List α} (hframe : mark ∉ frame)
    (hpart : mark ∈ part) (h : part ++ later = frame ++ mark :: rest) :
    ∃ tail, part = frame ++ mark :: tail ∧ tail ++ later = rest := by
  rcases List.append_eq_append_iff.mp h with ⟨more, rfl, -⟩ | ⟨more, rfl, hmore⟩
  · exact absurd (List.mem_append_left _ hpart) hframe
  · cases more with
    | nil =>
      rw [List.append_nil] at hpart
      exact absurd hpart hframe
    | cons a tail =>
      obtain ⟨rfl, rfl⟩ := List.cons.inj hmore
      exact ⟨tail, rfl, rfl⟩

/-- A frame that can be told from its neighbours. -/
def Clean (mark : α) (frame : List α) : Prop := frame ≠ [] ∧ mark ∉ frame

variable [DecidableEq α] (mark : α)

/-- The frames of a stream, with what has been read of the first one. -/
def unframeFrom : List α → List α → Option (List (List α))
  | frame, [] => if frame = [] then some [] else none
  | frame, a :: s =>
    if a = mark then
      if frame = [] then none
      else (unframeFrom [] s).map (frame :: ·)
    else unframeFrom (frame ++ [a]) s

/-- The frames of a stream. -/
def unframe (s : List α) : Option (List (List α)) := unframeFrom mark [] s

variable {mark}

/-- A frame is read up to its mark. -/
theorem unframeFrom_append {read frame : List α} (h : Clean mark (read ++ frame)) (s : List α) :
    unframeFrom mark read (frame ++ mark :: s) =
      (unframe mark s).map ((read ++ frame) :: ·) := by
  induction frame generalizing read with
  | nil =>
    rw [List.append_nil] at h ⊢
    rw [List.nil_append, unframeFrom, if_pos rfl, if_neg h.1, unframe]
  | cons a frame ih =>
    have ha : a ≠ mark := by
      rintro rfl
      exact h.2 (List.mem_append_right _ List.mem_cons_self)
    rw [List.append_cons read a frame] at h ⊢
    rw [List.cons_append, unframeFrom, if_neg ha, ih h]

/-- The frames of a stream are read back. -/
theorem unframe_stream {frames : List (List α)} (h : ∀ f ∈ frames, Clean mark f) :
    unframe mark (stream mark frames) = some frames := by
  induction frames with
  | nil => rfl
  | cons frame frames ih =>
    obtain ⟨hframe, hframes⟩ := List.forall_mem_cons.mp h
    rw [stream_cons, unframe, unframeFrom_append hframe, ih hframes]
    rfl

/-- What has been read is the stream of its frames. -/
theorem of_unframeFrom {read s : List α} {frames : List (List α)} (hread : mark ∉ read)
    (h : unframeFrom mark read s = some frames) :
    read ++ s = stream mark frames ∧ ∀ f ∈ frames, Clean mark f := by
  induction s generalizing read frames with
  | nil =>
    rw [unframeFrom] at h
    split_ifs at h with hnil
    obtain rfl := Option.some.inj h
    rw [hnil]
    exact ⟨rfl, List.forall_mem_nil _⟩
  | cons a s ih =>
    rw [unframeFrom] at h
    split_ifs at h with ha hnil
    · obtain ⟨rest, hrest, rfl⟩ := Option.map_eq_some_iff.mp h
      obtain ⟨heq, hclean⟩ := ih List.not_mem_nil hrest
      refine ⟨?_, List.forall_mem_cons.mpr ⟨⟨hnil, hread⟩, hclean⟩⟩
      rw [stream_cons, ← heq, ha, List.nil_append]
    · have hread : mark ∉ read ++ [a] := by
        rw [List.mem_append, List.mem_singleton]
        exact fun hmem => hmem.elim hread fun h => ha h.symm
      rw [List.append_cons]
      exact ih hread h

/-- A stream is read exactly if it is that of frames which are not empty and lack the mark. -/
theorem unframe_eq_some_iff {s : List α} {frames : List (List α)} :
    unframe mark s = some frames ↔ s = stream mark frames ∧ ∀ f ∈ frames, Clean mark f := by
  constructor
  · exact of_unframeFrom List.not_mem_nil
  · rintro ⟨rfl, h⟩
    exact unframe_stream h

/-! ## A stream that goes on -/

variable (mark)

/-- The frames whose marks have come. -/
def complete (s : List α) : List (List α) := (s.splitOn mark).dropLast

variable {mark}

/-- The frames of a stream are read although a next one has begun. -/
theorem complete_stream_append {frames : List (List α)} {rest : List α}
    (h : ∀ f ∈ frames, mark ∉ f) (hrest : mark ∉ rest) :
    complete mark (stream mark frames ++ rest) = frames := by
  have hall : ∀ f ∈ frames ++ [rest], mark ∉ f := by
    simpa [or_imp, forall_and] using And.intro h hrest
  rw [stream_append_eq_intercalate, complete, List.splitOn_intercalate mark hall (by simp),
    List.dropLast_concat]

end Framing
