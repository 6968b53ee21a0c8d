import Mathlib.Data.List.Basic

/-!
Cutting a stream into frames, one item at a time: items collect in a buffer until
the buffer is complete. What comes out depends on the stream only, however it is
cut into pieces, and a stream made of frames gives back these frames.
-/
namespace IoEdgeHub.Framing
variable {α : Type} (complete : List α → Bool)

/-- The buffer, and the frames that have been completed. -/
structure Framer (α : Type) where
  buf : List α
  frames : List (List α)

/-- One item. -/
def feed (s : Framer α) (a : α) : Framer α :=
  if complete (s.buf ++ [a]) then ⟨[], s.frames ++ [s.buf ++ [a]]⟩ else ⟨s.buf ++ [a], s.frames⟩

def feedAll (s : Framer α) (stream : List α) : Framer α := stream.foldl (feed complete) s

/-- A frame is completed by its last item, and not before. -/
structure Delimits (frame : List α) : Prop where
  some_ : frame ≠ []
  whole : complete frame = true
  first : ∀ k, 0 < k → k < frame.length → complete (frame.take k) = false

variable {complete}

theorem feedAll_append (s : Framer α) (first second : List α) :
    feedAll complete s (first ++ second) = feedAll complete (feedAll complete s first) second := List.foldl_append

/-- Frames that have been completed stay. -/
theorem feedAll_keeps (s : Framer α) (stream : List α) : ∃ more, (feedAll complete s stream).frames = s.frames ++ more := by
  induction stream generalizing s with
  | nil => exact ⟨[], (List.append_nil _).symm⟩
  | cons a rest ih =>
    obtain ⟨more, frames⟩ := ih (feed complete s a)
    rw [feedAll, List.foldl_cons, ← feedAll, frames]
    unfold feed
    split
    · exact ⟨_, List.append_assoc ..⟩
    · exact ⟨more, rfl⟩

/-- Items that complete nothing collect in the buffer. -/
theorem feedAll_collect {s : Framer α} {items : List α}
    (quiet : ∀ k, 0 < k → k ≤ items.length → complete (s.buf ++ items.take k) = false) :
    feedAll complete s items = ⟨s.buf ++ items, s.frames⟩ := by
  induction items generalizing s with
  | nil => simp [feedAll]
  | cons a rest ih =>
    have open_ : complete (s.buf ++ [a]) = false := by simpa using quiet 1 (by omega) (by simp)
    have next := @ih (feed complete s a) fun k _ le => by
      simpa [feed, open_] using quiet (k + 1) (by omega) (by simpa using le)
    rw [feedAll, List.foldl_cons, ← feedAll, next]
    simp [feed, open_]

/-- Items of which the last one completes the buffer make a frame with what was in it. -/
theorem feedAll_complete {s : Framer α} {items : List α} (some_ : items ≠ [])
    (quiet : ∀ k, 0 < k → k < items.length → complete (s.buf ++ items.take k) = false)
    (done : complete (s.buf ++ items) = true) : feedAll complete s items = ⟨[], s.frames ++ [s.buf ++ items]⟩ := by
  obtain ⟨front, last, rfl⟩ := (List.eq_nil_or_concat' items).resolve_left some_
  have front_ := @feedAll_collect _ complete s front fun k pos le => by
    have open_ := quiet k pos (by simp; omega)
    rwa [List.take_append_of_le_length le] at open_
  rw [← List.append_assoc] at done ⊢
  rw [feedAll_append, front_, feedAll, List.foldl_cons, List.foldl_nil, feed, if_pos done]

/-- A stream of frames gives back these frames. -/
theorem feedAll_frames {frames : List (List α)} (delimits : ∀ f ∈ frames, Delimits complete f) (out : List (List α)) :
    feedAll complete ⟨[], out⟩ frames.flatten = ⟨[], out ++ frames⟩ := by
  induction frames generalizing out with
  | nil => simp [feedAll]
  | cons f rest ih =>
    have frame := delimits f (by simp)
    have one := @feedAll_complete _ complete ⟨[], out⟩ f frame.some_ frame.first frame.whole
    rw [List.flatten_cons, feedAll_append, one]
    have more := ih (fun g member => delimits g (by simp [member])) (out ++ [f])
    simpa using more

end IoEdgeHub.Framing
