import CoherentMemory.Interconnect.LeastCost
import Mathlib.Data.List.Nodup

/-!
# Offers and the frontier

What an offer changes in the state of a search: the cost found for one node goes
down or nothing changes (`bestOf?_offer`), and the frontier gets at most one entry
more. `offerAll` makes several offers in turn; what holds of one holds of all. The
frontier stays sorted by cost and free of repetitions (`sorted_enqueue`,
`nodup_enqueue`).
-/

namespace CoherentMemory.Interconnect

namespace Search

/-! ## Offers -/

theorem improves_iff {s : Search} {v : NodeId} {x : Nat} :
    s.improves v x = true ↔ v < s.best.size ∧ ∀ b, s.bestOf? v = some b → x < b := by
  unfold improves bestOf?
  by_cases h : v < s.best.size
  · rw [Array.getElem?_eq_getElem h]
    cases s.best[v] <;> simp [h]
  · rw [Array.getElem?_eq_none (Nat.le_of_not_lt h)]
    simp [h]

theorem bestOf?_offer (s : Search) (w v : NodeId) (x : Nat) :
    (s.offer w x).bestOf? v = if s.improves w x = true ∧ w = v then some x else s.bestOf? v := by
  unfold offer
  by_cases h : s.improves w x = true
  · have hw := (improves_iff.mp h).1
    rw [if_pos h, bestOf?, Array.getElem?_setIfInBounds]
    by_cases e : w = v
    · subst e
      rw [if_pos rfl, if_pos hw, if_pos ⟨h, rfl⟩]
      rfl
    · rw [if_neg e, if_neg (fun c => e c.2)]
      rfl
  · rw [if_neg h, if_neg (fun c => h c.1)]

theorem frontier_offer (s : Search) (w : NodeId) (x : Nat) :
    (s.offer w x).frontier =
      if s.improves w x = true then enqueue (x, w) s.frontier else s.frontier := by
  unfold offer
  split <;> rfl

/-- An offer never raises what was found. -/
theorem bestOf?_offer_le {s : Search} {v : NodeId} {b : Nat} (h : s.bestOf? v = some b)
    (w : NodeId) (x : Nat) : ∃ b', (s.offer w x).bestOf? v = some b' ∧ b' ≤ b := by
  rw [bestOf?_offer]
  by_cases c : s.improves w x = true ∧ w = v
  · obtain ⟨hi, rfl⟩ := c
    rw [if_pos ⟨hi, rfl⟩]
    exact ⟨x, rfl, Nat.le_of_lt ((improves_iff.mp hi).2 b h)⟩
  · rw [if_neg c]
    exact ⟨b, h, Nat.le_refl b⟩

/-- What was offered to a node bounds what was found for it. -/
theorem bestOf?_offer_self {s : Search} {w : NodeId} (hw : w < s.best.size) (x : Nat) :
    ∃ b, (s.offer w x).bestOf? w = some b ∧ b ≤ x := by
  rw [bestOf?_offer]
  by_cases hi : s.improves w x = true
  · rw [if_pos ⟨hi, rfl⟩]
    exact ⟨x, rfl, Nat.le_refl x⟩
  · rw [if_neg (fun c => hi c.1)]
    cases hb : s.bestOf? w with
    | none => exact absurd (improves_iff.mpr ⟨hw, fun b h => by rw [hb] at h; cases h⟩) hi
    | some b =>
      refine ⟨b, rfl, Nat.le_of_not_lt fun hlt => hi (improves_iff.mpr ⟨hw, fun b' h => ?_⟩)⟩
      rw [hb] at h
      cases h
      exact hlt

/-- Offers that are no cheaper than what was found for a node leave it. -/
theorem bestOf?_offer_of_le {s : Search} {v : NodeId} {b : Nat} (h : s.bestOf? v = some b)
    {w : NodeId} {x : Nat} (hx : b ≤ x) : (s.offer w x).bestOf? v = some b := by
  rw [bestOf?_offer, if_neg, h]
  rintro ⟨hi, rfl⟩
  exact absurd ((improves_iff.mp hi).2 b h) (Nat.not_lt.mpr hx)

/-- The state after several offers, in their order. -/
def offerAll (s : Search) (offers : List (NodeId × Nat)) : Search :=
  offers.foldl (fun s o => s.offer o.1 o.2) s

@[simp] theorem offerAll_cons (s : Search) (o : NodeId × Nat) (offers : List (NodeId × Nat)) :
    s.offerAll (o :: offers) = (s.offer o.1 o.2).offerAll offers :=
  rfl

theorem bestOf?_offerAll_le {s : Search} {v : NodeId} {b : Nat} (h : s.bestOf? v = some b)
    (offers : List (NodeId × Nat)) : ∃ b', (s.offerAll offers).bestOf? v = some b' ∧ b' ≤ b := by
  induction offers generalizing s b with
  | nil => exact ⟨b, h, Nat.le_refl b⟩
  | cons o offers ih =>
    obtain ⟨b₁, h₁, hle₁⟩ := bestOf?_offer_le h o.1 o.2
    obtain ⟨b₂, h₂, hle₂⟩ := ih h₁
    exact ⟨b₂, h₂, Nat.le_trans hle₂ hle₁⟩

theorem bestOf?_offerAll_of_mem {s : Search} {offers : List (NodeId × Nat)} {o : NodeId × Nat}
    (ho : o ∈ offers) (hs : o.1 < s.best.size) :
    ∃ b, (s.offerAll offers).bestOf? o.1 = some b ∧ b ≤ o.2 := by
  induction offers generalizing s with
  | nil => cases ho
  | cons p offers ih =>
    rcases List.mem_cons.mp ho with rfl | ho
    · obtain ⟨b₁, h₁, hle₁⟩ := bestOf?_offer_self hs o.2
      obtain ⟨b₂, h₂, hle₂⟩ := bestOf?_offerAll_le h₁ offers
      exact ⟨b₂, h₂, Nat.le_trans hle₂ hle₁⟩
    · exact ih ho (by rw [size_offer]; exact hs)

theorem bestOf?_offerAll_of_le {s : Search} {v : NodeId} {b : Nat} (h : s.bestOf? v = some b)
    {offers : List (NodeId × Nat)} (ho : ∀ o ∈ offers, b ≤ o.2) :
    (s.offerAll offers).bestOf? v = some b := by
  induction offers generalizing s with
  | nil => exact h
  | cons o offers ih =>
    exact ih (bestOf?_offer_of_le h (ho o (List.mem_cons_self ..)))
      fun p hp => ho p (List.mem_cons_of_mem _ hp)

/-- A cost that offers brought in is one of theirs. -/
theorem bestOf?_offerAll_eq {s : Search} {v : NodeId} {b : Nat} {offers : List (NodeId × Nat)}
    (h : (s.offerAll offers).bestOf? v = some b) : s.bestOf? v = some b ∨ (v, b) ∈ offers := by
  induction offers generalizing s with
  | nil => exact .inl h
  | cons o offers ih =>
    rcases ih h with h₁ | h₁
    · rw [bestOf?_offer] at h₁
      split at h₁
      · rename_i c
        cases h₁
        obtain ⟨-, rfl⟩ := c
        exact .inr (List.mem_cons_self ..)
      · exact .inl h₁
    · exact .inr (List.mem_cons_of_mem _ h₁)

theorem length_frontier_offerAll_le (s : Search) (offers : List (NodeId × Nat)) :
    (s.offerAll offers).frontier.length ≤ s.frontier.length + offers.length := by
  induction offers generalizing s with
  | nil => exact Nat.le_refl _
  | cons o offers ih =>
    have h₁ : (s.offer o.1 o.2).frontier.length ≤ s.frontier.length + 1 := by
      rw [frontier_offer]
      split
      · exact Nat.le_of_eq (length_enqueue _ _)
      · exact Nat.le_succ _
    have h₂ := ih (s.offer o.1 o.2)
    rw [offerAll_cons, List.length_cons]
    omega

end Search

theorem nodup_enqueue {e : Entry} {entries : List Entry} (h : entries.Nodup) (he : e ∉ entries) :
    (enqueue e entries).Nodup := by
  fun_induction enqueue e entries with
  | case1 => exact List.nodup_singleton e
  | case2 => exact List.nodup_cons.mpr ⟨he, h⟩
  | case3 f rest _ ih =>
    have hn := List.nodup_cons.mp h
    refine List.nodup_cons.mpr ⟨fun hf => ?_, ih hn.2 fun hr => he (List.mem_cons_of_mem _ hr)⟩
    rcases mem_enqueue.mp hf with rfl | hf
    · exact he (List.mem_cons_self ..)
    · exact hn.1 hf

theorem sorted_enqueue {e : Entry} {entries : List Entry}
    (h : entries.Pairwise fun e f => e.1 ≤ f.1) :
    (enqueue e entries).Pairwise fun e f => e.1 ≤ f.1 := by
  fun_induction enqueue e entries with
  | case1 => exact List.pairwise_singleton _ e
  | case2 f rest hle =>
    have hef : e.1 ≤ f.1 := by
      simp only [Entry.le, Bool.or_eq_true, Bool.and_eq_true, decide_eq_true_eq] at hle
      omega
    refine List.pairwise_cons.mpr ⟨fun g hg => ?_, h⟩
    rcases List.mem_cons.mp hg with rfl | hg
    · exact hef
    · exact Nat.le_trans hef ((List.pairwise_cons.mp h).1 g hg)
  | case3 f rest hle ih =>
    have hfe : f.1 ≤ e.1 := by
      simp only [Entry.le, Bool.or_eq_true, Bool.and_eq_true, decide_eq_true_eq] at hle
      omega
    obtain ⟨hf, hr⟩ := List.pairwise_cons.mp h
    refine List.pairwise_cons.mpr ⟨fun g hg => ?_, ih hr⟩
    rcases mem_enqueue.mp hg with rfl | hg
    · exact hfe
    · exact hf g hg

end CoherentMemory.Interconnect
