import Mathlib.Order.Nat
import Timetable.Proofs.Store.Requests

/-!
# Chronicles of a store

The stores of a run, the last one first. Each commit takes the next version, so that a version tells the
listing and a version of an object tells the object. Changes that were made one after the other follow each other, and
each is recorded by the two stores that it leads from and to.
-/

namespace Timetable

/-- The stores since the empty one, the last one first. -/
inductive Chronicle : List Store → Prop
  | start : Chronicle [.empty]
  | turn {s t : Store} {past : List Store} :
      Chronicle (s :: past) → s.Turn t → Chronicle (t :: s :: past)

namespace Listing

lemma mem_apply {l : Listing} {c : Change} {p : Object} (h : p ∈ l.apply c) : p = c.object ∨ p ∈ l := by
  unfold apply at h
  split at h
  · exact mem_put h
  · exact mem_put h
  · exact Or.inr (mem_erase h)

end Listing

namespace Store

lemma Turn.cases {s t : Store} (h : s.Turn t) :
    SameData t s ∨ ∃ c : Change, c.version = s.version + 1 ∧ t.version = s.version + 1 ∧
      t.objects = s.objects.apply c ∧ t.history = remember s.history c := by
  obtain h | ⟨type, o, h⟩ := h
  · exact Or.inl h
  · refine Or.inr ⟨⟨type, o.withVersion (s.version + 1)⟩, Object.version_withVersion _ _, ?_, ?_, ?_⟩
    · exact h.version
    · exact h.objects
    · exact h.history.trans (commit_history s type o)

lemma Turn.version_le {s t : Store} (h : s.Turn t) : s.version ≤ t.version := by
  obtain h | ⟨c, -, hv, -⟩ := h.cases
  · exact h.version.ge
  · omega

end Store

namespace Chronicle
variable {stores past : List Store} {s t : Store}

lemma append (h : Chronicle (s :: past)) {new : List Store} (hn : Store.Turns new s) :
    Chronicle (new ++ s :: past) := by
  induction new with
  | nil => exact h
  | cons t rest ih =>
    cases rest with
    | nil => exact turn h hn.1
    | cons u rest => exact turn (ih hn.2) hn.1

theorem stages (h : Chronicle (s :: past)) (r : Request) : Chronicle (s.stages r ++ s :: past) :=
  h.append (Store.stages_turns s r)

/-! ## Versions -/

theorem pairwise_version (h : Chronicle stores) :
    stores.Pairwise fun newer older => older.version ≤ newer.version := by
  induction h with
  | start => exact List.pairwise_singleton _ _
  | turn _ hturn ih =>
    refine List.Pairwise.cons ?_ ih
    intro u hu
    obtain rfl | hu := List.mem_cons.1 hu
    · exact hturn.version_le
    · exact (List.rel_of_pairwise_cons ih hu).trans hturn.version_le

lemma version_le_head (h : Chronicle (s :: past)) (ht : t ∈ s :: past) : t.version ≤ s.version := by
  obtain rfl | ht := List.mem_cons.1 ht
  · exact le_rfl
  · exact List.rel_of_pairwise_cons h.pairwise_version ht

/-- No version is left out. -/
theorem exists_version (h : Chronicle stores) (ht : t ∈ stores) {v : Nat} (hv : v ≤ t.version) :
    ∃ u ∈ stores, u.version = v := by
  induction h generalizing t with
  | start =>
    obtain rfl := List.mem_singleton.1 ht
    exact ⟨.empty, ht, (Nat.le_zero.1 hv).symm⟩
  | @turn s t' past _ hturn ih =>
    obtain rfl | ht := List.mem_cons.1 ht
    · by_cases hvs : v ≤ s.version
      · obtain ⟨u, hu, huv⟩ := ih List.mem_cons_self hvs
        exact ⟨u, List.mem_cons_of_mem _ hu, huv⟩
      · obtain hsame | ⟨c, -, htv, -⟩ := hturn.cases
        · exact absurd (hsame.version ▸ hv) hvs
        · exact ⟨t, List.mem_cons_self, by omega⟩
    · obtain ⟨u, hu, huv⟩ := ih ht hv
      exact ⟨u, List.mem_cons_of_mem _ hu, huv⟩

/-- A version tells the listing. -/
theorem objects_eq (h : Chronicle stores) (hs : s ∈ stores) (ht : t ∈ stores)
    (hv : s.version = t.version) : s.objects = t.objects := by
  induction h generalizing s t with
  | start => rw [List.mem_singleton.1 hs, List.mem_singleton.1 ht]
  | @turn last next past hc hturn ih =>
    have hold : ∀ u ∈ last :: past, next.version = u.version → next.objects = u.objects := by
      intro u hu hnu
      obtain hsame | ⟨c, -, hnext, -⟩ := hturn.cases
      · rw [hsame.objects]
        exact ih List.mem_cons_self hu (hsame.version.symm.trans hnu)
      · have hle := hc.version_le_head hu
        omega
    rcases List.mem_cons.1 hs with rfl | hs' <;> rcases List.mem_cons.1 ht with rfl | ht'
    · rfl
    · exact hold t ht' hv
    · exact (hold s hs' hv.symm).symm
    · exact ih hs' ht' hv

/-! ## Objects -/

theorem keyed (h : Chronicle stores) (ht : t ∈ stores) : t.objects.Keyed := by
  induction h generalizing t with
  | start =>
    rw [List.mem_singleton.1 ht]
    exact Listing.keyed_empty
  | @turn last next past _ hturn ih =>
    obtain rfl | ht := List.mem_cons.1 ht
    · have hlast := ih List.mem_cons_self
      obtain hsame | ⟨c, -, -, hobjects, -⟩ := hturn.cases
      · rw [hsame.objects]
        exact hlast
      · rw [hobjects]
        exact hlast.apply c
    · exact ih ht

theorem mem_version_le (h : Chronicle stores) (ht : t ∈ stores) {o : Object} (ho : o ∈ t.objects) :
    o.version ≤ t.version := by
  induction h generalizing t with
  | start =>
    rw [List.mem_singleton.1 ht, Listing.mem_def] at ho
    simp [Store.empty] at ho
  | @turn last next past _ hturn ih =>
    obtain rfl | ht := List.mem_cons.1 ht
    · obtain hsame | ⟨c, hcv, htv, hobjects, -⟩ := hturn.cases
      · rw [hsame.version]
        exact ih List.mem_cons_self (hsame.objects ▸ ho)
      · rw [hobjects] at ho
        obtain rfl | ho := Listing.mem_apply ho
        · exact (hcv.trans htv.symm).le
        · have hle := ih List.mem_cons_self ho
          omega
    · exact ih ht ho

/-- A version of an object tells the object, wherever it is found. -/
theorem mem_eq (h : Chronicle stores) (hs : s ∈ stores) (ht : t ∈ stores) {o p : Object}
    (ho : o ∈ s.objects) (hp : p ∈ t.objects) (hv : o.version = p.version) : o = p := by
  induction h generalizing s t o p with
  | start =>
    rw [List.mem_singleton.1 hs, Listing.mem_def] at ho
    simp [Store.empty] at ho
  | @turn last next past hc hturn ih =>
    -- an object of the new store is the one committed or was there before
    have hnext : ∃ q : Option Object, ∀ o ∈ next.objects,
        (q = some o ∧ o.version = last.version + 1) ∨ o ∈ last.objects := by
      obtain hsame | ⟨c, hcv, -, hobjects, -⟩ := hturn.cases
      · exact ⟨none, fun o ho => Or.inr (hsame.objects ▸ ho)⟩
      · refine ⟨some c.object, fun o ho => ?_⟩
        rw [hobjects] at ho
        obtain rfl | ho := Listing.mem_apply ho
        · exact Or.inl ⟨rfl, hcv⟩
        · exact Or.inr ho
    obtain ⟨q, hq⟩ := hnext
    have hplace : ∀ u ∈ next :: last :: past, ∀ o ∈ u.objects,
        (q = some o ∧ o.version = last.version + 1) ∨
          (o.version ≤ last.version ∧ ∃ u ∈ last :: past, o ∈ u.objects) := by
      intro u hu o ho
      obtain rfl | hu := List.mem_cons.1 hu
      · obtain hnew | hold := hq o ho
        · exact Or.inl hnew
        · exact Or.inr ⟨hc.mem_version_le List.mem_cons_self hold, last, List.mem_cons_self, hold⟩
      · exact Or.inr ⟨(hc.mem_version_le hu ho).trans (hc.version_le_head hu), u, hu, ho⟩
    obtain ⟨hqo, hov⟩ | ⟨hov, u, hu, hou⟩ := hplace s hs o ho <;>
      obtain ⟨hqp, hpv⟩ | ⟨hpv, w, hw, hpw⟩ := hplace t ht p hp
    · exact Option.some.inj (hqo.symm.trans hqp)
    · omega
    · omega
    · exact ih hu hw hou hpw hv

end Chronicle

/-! ## Changes -/

/-- Changes that follow each other from a version on. -/
inductive Follow : Nat → List Change → Prop
  | nil (v : Nat) : Follow v []
  | cons {v : Nat} {c : Change} {cs : List Change} :
      c.version = v + 1 → Follow (v + 1) cs → Follow v (c :: cs)

namespace Follow
variable {v : Nat} {c : Change} {cs ds : List Change}

lemma head (h : Follow v (c :: cs)) : c.version = v + 1 := by
  cases h with
  | cons hc _ => exact hc

lemma append (h : Follow v cs) (hd : Follow (v + cs.length) ds) : Follow v (cs ++ ds) := by
  induction h with
  | nil v => exact hd
  | @cons v c cs hc _ ih =>
    refine cons hc (ih ?_)
    rw [List.length_cons] at hd
    rwa [show v + 1 + cs.length = v + (cs.length + 1) by omega]

lemma drop (h : Follow v cs) {n : Nat} (hn : n ≤ cs.length) : Follow (v + n) (cs.drop n) := by
  induction h generalizing n with
  | nil v =>
    rw [List.drop_nil]
    exact nil _
  | @cons v c cs hc hcs ih =>
    cases n with
    | zero => exact cons hc hcs
    | succ n =>
      rw [List.drop_succ_cons, show v + (n + 1) = v + 1 + n by omega]
      exact ih (Nat.le_of_succ_le_succ hn)

lemma lt_version (h : Follow v cs) (hc : c ∈ cs) : v < c.version := by
  induction h with
  | nil v => simp at hc
  | @cons v d cs hd _ ih =>
    obtain rfl | hc := List.mem_cons.1 hc
    · omega
    · exact (Nat.lt_succ_self v).trans (ih hc)

lemma version_getElem? (h : Follow v cs) {n : Nat} (hc : cs[n]? = some c) : c.version = v + n + 1 := by
  induction h generalizing n with
  | nil v => simp at hc
  | @cons v d cs hd _ ih =>
    cases n with
    | zero =>
      rw [List.getElem?_cons_zero] at hc
      rw [← Option.some.inj hc, hd, Nat.add_zero]
    | succ n =>
      rw [ih hc]
      omega

lemma take (h : Follow v cs) (n : Nat) : Follow v (cs.take n) := by
  induction h generalizing n with
  | nil v =>
    rw [List.take_nil]
    exact nil v
  | @cons v c cs hc _ ih =>
    cases n with
    | zero => exact nil v
    | succ n => exact cons hc (ih n)

lemma mem_take (h : Follow v cs) {n : Nat} : c ∈ cs.take n ↔ c ∈ cs ∧ c.version ≤ v + n := by
  induction h generalizing n with
  | nil => simp
  | @cons v first cs hfirst hcs ih =>
    cases n with
    | zero =>
      simp only [List.take_zero, List.not_mem_nil, false_iff, not_and]
      intro hc hle
      exact absurd ((cons hfirst hcs).lt_version hc) (Nat.not_lt.2 hle)
    | succ n =>
      rw [List.take_succ_cons, List.mem_cons, List.mem_cons, ih, Nat.add_right_comm, Nat.add_assoc v n 1]
      constructor
      · rintro (rfl | ⟨hc, hle⟩)
        · exact ⟨.inl rfl, by omega⟩
        · exact ⟨.inr hc, hle⟩
      · rintro ⟨rfl | hc, hle⟩
        · exact .inl rfl
        · exact .inr ⟨hc, hle⟩

lemma filter_lt (h : Follow v cs) (n : Nat) :
    cs.filter (fun c => decide (n < c.version)) = cs.drop (n - v) := by
  induction h with
  | nil v => simp
  | @cons v c cs hc hcs ih =>
    by_cases hn : n ≤ v
    · rw [show n - v = 0 by omega, List.drop_zero, List.filter_eq_self]
      intro d hd
      have hlt := (cons hc hcs).lt_version hd
      exact decide_eq_true (by omega)
    · rw [List.filter_cons_of_neg (by simp; omega), ih, show n - v = (n - (v + 1)) + 1 by omega,
        List.drop_succ_cons]

end Follow

/-- A change that took the store from one version to the next. -/
def Recorded (stores : List Store) (c : Change) : Prop :=
  ∃ s ∈ stores, ∃ t ∈ stores, c.version = s.version + 1 ∧ t.version = s.version + 1 ∧
    t.objects = s.objects.apply c

lemma Recorded.mono {old stores : List Store} {c : Change} (h : Recorded old c)
    (hsub : old ⊆ stores) : Recorded stores c := by
  obtain ⟨s, hs, t, ht, hc⟩ := h
  exact ⟨s, hsub hs, t, hsub ht, hc⟩

end Timetable
