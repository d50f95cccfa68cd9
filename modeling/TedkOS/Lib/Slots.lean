/-
  Requests to a server that has one place for a request on each of its channels.

  Who issues a request puts it in the place of its channel, and the server takes it out when it is
  done.  A request put where another stands REPLACES it, and that one is never completed.  So the
  requests issued are the requests completed and those in the places (`Accounted`), each as often as
  it was issued, exactly as long as every request finds its place empty (`Accounted.issue_iff`).

  The lists are compared up to order: `l.Perm l'` says that everything is in both equally often.

  Nothing here names a program.
-/
import Mathlib.Data.List.Nodup
import Mathlib.Data.List.Perm.Basic
import Mathlib.Logic.Function.Basic

/-- The places, and what was issued and completed so far. -/
@[ext]
structure Slots (ι R : Type) where
  slot : ι → Option R
  issued : List R
  completed : List R

namespace Slots

variable {ι R : Type} [DecidableEq ι] {channels : List ι} {S : Slots ι R} {i : ι} {r : R}

/-- A request is put in the place of its channel. -/
def issue (S : Slots ι R) (i : ι) (r : R) : Slots ι R where
  slot := Function.update S.slot i (some r)
  issued := S.issued ++ [r]
  completed := S.completed

/-- The request on a channel is completed, if there is one. -/
def complete (S : Slots ι R) (i : ι) : Slots ι R where
  slot := Function.update S.slot i none
  issued := S.issued
  completed := S.completed ++ (S.slot i).toList

/-- The requests in the places. -/
def waiting (channels : List ι) (S : Slots ι R) : List R := channels.filterMap S.slot

/-- What was issued is completed or waits, and nothing else is. -/
def Accounted (channels : List ι) (S : Slots ι R) : Prop :=
  S.issued.Perm (S.completed ++ S.waiting channels)

/-- A channel of the list, apart from the others. -/
theorem filterMap_perm {f : ι → Option R} (hnodup : channels.Nodup) (hi : i ∈ channels) :
    (channels.filterMap f).Perm
      ((f i).toList ++ channels.filterMap (Function.update f i none)) := by
  induction channels with
  | nil => exact absurd hi List.not_mem_nil
  | cons c channels ih =>
    obtain ⟨hout, hnodup⟩ := List.nodup_cons.mp hnodup
    rcases List.mem_cons.mp hi with rfl | hi
    · have hrest : channels.filterMap (Function.update f i none) = channels.filterMap f :=
        List.filterMap_congr fun c hc =>
          Function.update_of_ne (fun heq : c = i => hout (heq ▸ hc)) _ _
      rw [List.filterMap_cons_none (Function.update_self ..), hrest]
      cases hfi : f i with
      | none => rw [List.filterMap_cons_none hfi]; exact List.Perm.refl _
      | some r => rw [List.filterMap_cons_some hfi]; exact List.Perm.refl _
    · have hne : c ≠ i := fun heq => hout (heq.symm ▸ hi)
      have hc : Function.update f i none c = f c := Function.update_of_ne hne _ _
      cases hfc : f c with
      | none =>
        rw [List.filterMap_cons_none hfc, List.filterMap_cons_none (hc.trans hfc)]
        exact ih hnodup hi
      | some r =>
        rw [List.filterMap_cons_some hfc, List.filterMap_cons_some (hc.trans hfc)]
        exact ((ih hnodup hi).cons r).trans List.perm_middle.symm

/-- The place of a channel is filled. -/
theorem waiting_update (hnodup : channels.Nodup) (hi : i ∈ channels) (o : Option R) :
    (channels.filterMap (Function.update S.slot i o)).Perm
      (o.toList ++ channels.filterMap (Function.update S.slot i none)) := by
  have h := filterMap_perm (f := Function.update S.slot i o) hnodup hi
  rwa [Function.update_self, Function.update_idem] at h

/-- **Completion** keeps the requests accounted for. -/
theorem Accounted.complete (h : S.Accounted channels) (hnodup : channels.Nodup)
    (hi : i ∈ channels) :
    (S.complete i).Accounted channels := by
  refine h.trans ?_
  show (S.completed ++ S.waiting channels).Perm
    ((S.completed ++ (S.slot i).toList) ++ channels.filterMap (Function.update S.slot i none))
  rw [List.append_assoc]
  exact (filterMap_perm hnodup hi).append_left S.completed

/-- **A new request** keeps them accounted for exactly if it finds its place empty. -/
theorem Accounted.issue_iff (h : S.Accounted channels) (hnodup : channels.Nodup)
    (hi : i ∈ channels) :
    (S.issue i r).Accounted channels ↔ S.slot i = none := by
  have hold := filterMap_perm (f := S.slot) hnodup hi
  have hnew : ((S.issue i r).waiting channels).Perm
      (r :: channels.filterMap (Function.update S.slot i none)) := waiting_update hnodup hi (some r)
  constructor
  · intro hacc
    -- one more was issued, so one more must wait
    have hlen := h.length_eq
    have hlen' := hacc.length_eq
    have hissued : (S.issue i r).issued.length = S.issued.length + 1 := List.length_append
    rw [List.length_append] at hlen hlen'
    rw [hnew.length_eq, List.length_cons] at hlen'
    rw [waiting, hold.length_eq, List.length_append] at hlen
    have hcompleted : (S.issue i r).completed.length = S.completed.length := rfl
    have hempty : (S.slot i).toList.length = 0 := by omega
    cases hslot : S.slot i with
    | none => rfl
    | some q => rw [hslot] at hempty; cases hempty
  · intro hslot
    rw [hslot] at hold
    refine (List.perm_append_singleton r S.issued).trans ((h.cons r).trans ?_)
    exact List.perm_middle.symm.trans (((hold.cons r).trans hnew.symm).append_left S.completed)

omit [DecidableEq ι] in
/-- Nothing was issued yet. -/
theorem Accounted.nil (hslot : ∀ i, S.slot i = none) (hissued : S.issued = [])
    (hcompleted : S.completed = []) :
    S.Accounted channels := by
  rw [Accounted, waiting, hissued, hcompleted, List.filterMap_eq_nil_iff.mpr fun i _ => hslot i]
  exact List.Perm.refl _

end Slots
