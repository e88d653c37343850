import Cpu2Tensor.Library.PrefixCode

/-!
# Streams cut at a stop element

A stream is a list of pieces, each ended by the only stop element in it, and a rest without one.
-/

namespace Cpu2Tensor.Library

variable {α : Type*} {stop : α}

def terminated (stop : α) : Set (List α) := { w | ∃ body, stop ∉ body ∧ w = body ++ [stop] }

variable {pieces : List (List α)} {rest stream : List α}

theorem not_terminated_of_notMem {w : List α} (hrest : stop ∉ rest) (hw : w ∈ terminated stop) :
    ¬ w <+: rest := by
  obtain ⟨body,_,rfl⟩ := hw
  intro hstart
  exact hrest (hstart.subset (by simp))

theorem terminated_prefixCode (stop : α) : PrefixCode (terminated stop) where
  nonempty := by
    rintro ⟨body,_,hbody⟩
    simp at hbody
  apart := by
    intro u hu v hv hstart
    obtain ⟨body,hbody,rfl⟩ := hv
    -- A word that stops inside the body of another would leave its stop there.
    rcases List.prefix_concat_iff.mp hstart with hall | hinside
    · exact hall
    · exact absurd hinside (not_terminated_of_notMem hbody hu)

structure Delimited (stop : α) (stream : List α) (pieces : List (List α)) (rest : List α) :
    Prop where
  whole : pieces.flatten ++ rest = stream
  ended : ∀ piece ∈ pieces, piece ∈ terminated stop
  unended : stop ∉ rest

theorem Delimited.unique {rest' : List α} {pieces' : List (List α)}
    (h : Delimited stop stream pieces rest) (h' : Delimited stop stream pieces' rest') :
    pieces = pieces' ∧ rest = rest' :=
  (terminated_prefixCode stop).flatten_append_inj h.ended h'.ended
    (fun _ hw => not_terminated_of_notMem h.unended hw)
    (fun _ hw => not_terminated_of_notMem h'.unended hw) (h.whole.trans h'.whole.symm)

theorem delimited_of_notMem (h : stop ∉ rest) : Delimited stop rest [] rest where
  whole := rfl
  ended := by simp
  unended := h

theorem Delimited.cons (body : List α) (hbody : stop ∉ body)
    (h : Delimited stop stream pieces rest) :
    Delimited stop (body ++ [stop] ++ stream) ((body ++ [stop]) :: pieces) rest where
  whole := by rw [List.flatten_cons,List.append_assoc,h.whole]
  ended := by
    intro piece hpiece
    rcases List.mem_cons.mp hpiece with rfl | hpiece
    · exact ⟨body,hbody,rfl⟩
    · exact h.ended piece hpiece
  unended := h.unended

variable {first second : List α} {limit : Nat}

/-- What follows is cut together with the rest of what came before. -/
theorem Delimited.append {last : List α} {more : List (List α)}
    (h : Delimited stop first pieces rest) (h' : Delimited stop (rest ++ second) more last) :
    Delimited stop (first ++ second) (pieces ++ more) last where
  whole := by
    rw [List.flatten_append,List.append_assoc,h'.whole,← List.append_assoc,h.whole]
  ended := by
    intro piece hpiece
    rcases List.mem_append.mp hpiece with hpiece | hpiece
    · exact h.ended piece hpiece
    · exact h'.ended piece hpiece
  unended := h'.unended

variable [DecidableEq α]

def frame (stop : α) : List α → List (List α) × List α
  | [] => ([],[])
  | x :: stream =>
    if x = stop then ([x] :: (frame stop stream).1,(frame stop stream).2)
    else match frame stop stream with
      | ([],rest) => ([],x :: rest)
      | (piece :: pieces,rest) => ((x :: piece) :: pieces,rest)

theorem delimited_frame (stop : α) (stream : List α) :
    Delimited stop stream (frame stop stream).1 (frame stop stream).2 := by
  induction stream with
  | nil => exact delimited_of_notMem (by simp)
  | cons x stream ih =>
    by_cases hx : x = stop
    · subst hx
      simp only [frame,if_true]
      exact Delimited.cons [] (by simp) ih
    · rw [frame,if_neg hx]
      generalize frame stop stream = cut at ih ⊢
      obtain ⟨pieces,rest⟩ := cut
      cases pieces with
      | nil =>
        have hrest : rest = stream := ih.whole
        subst hrest
        have hne : stop ≠ x := fun h => hx h.symm
        exact delimited_of_notMem (by simp [hne,ih.unended])
      | cons piece pieces =>
        obtain ⟨body,hbody,hpiece⟩ := ih.ended piece List.mem_cons_self
        have hrest : Delimited stop (pieces.flatten ++ rest) pieces rest :=
          ⟨rfl,fun p hp => ih.ended p (List.mem_cons_of_mem _ hp),ih.unended⟩
        have hne : stop ≠ x := fun h => hx h.symm
        have hcons := hrest.cons (x :: body) (by simp [hne,hbody])
        have hwhole : x :: body ++ [stop] ++ (pieces.flatten ++ rest) = x :: stream := by
          rw [← ih.whole,hpiece]
          simp
        rw [hwhole] at hcons
        simpa [hpiece] using hcons

theorem Delimited.eq_frame (h : Delimited stop stream pieces rest) :
    frame stop stream = (pieces,rest) := by
  have hunique := (delimited_frame stop stream).unique h
  exact Prod.ext hunique.1 hunique.2

/-- Some piece is longer than the limit, or the rest can only end in one that is. -/
def Exceeds (stop : α) (limit : Nat) (stream : List α) : Prop :=
  (∃ piece ∈ (frame stop stream).1, limit < piece.length) ∨
    limit < (frame stop stream).2.length+1

instance (limit : Nat) (stream : List α) : Decidable (Exceeds stop limit stream) :=
  inferInstanceAs (Decidable (_ ∨ _))

theorem Delimited.exceeds (h : Delimited stop first pieces rest) (hrest : limit ≤ rest.length) :
    Exceeds stop limit (first ++ second) := by
  have hsecond := delimited_frame stop (rest ++ second)
  generalize frame stop (rest ++ second) = cut at hsecond
  obtain ⟨more,last⟩ := cut
  have hall := (h.append hsecond).eq_frame
  rw [Exceeds,hall]
  cases more with
  | nil =>
    right
    have hlast : last = rest ++ second := hsecond.whole
    rw [hlast,List.length_append]
    omega
  | cons piece more =>
    left
    refine ⟨piece,by simp,?_⟩
    have hpiece : piece <+: rest ++ second := by
      rw [← hsecond.whole,List.flatten_cons,List.append_assoc]
      exact List.prefix_append ..
    have hnot := not_terminated_of_notMem h.unended (hsecond.ended piece List.mem_cons_self)
    by_contra hshort
    exact hnot (List.prefix_of_prefix_length_le hpiece (List.prefix_append ..) (by omega))

theorem Delimited.not_exceeds (h : Delimited stop stream pieces rest)
    (hpieces : ∀ piece ∈ pieces, piece.length ≤ limit) (hrest : rest.length < limit) :
    ¬ Exceeds stop limit stream := by
  rw [Exceeds,h.eq_frame]
  rintro (⟨piece,hpiece,hlong⟩ | hlong)
  · exact absurd hlong (Nat.not_lt.mpr (hpieces piece hpiece))
  · exact absurd hrest (Nat.not_lt.mpr (Nat.lt_succ_iff.mp hlong))

end Cpu2Tensor.Library
