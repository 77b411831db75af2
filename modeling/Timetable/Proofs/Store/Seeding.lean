import Timetable.Proofs.Object.Templates
import Timetable.Proofs.Store.Deletion
import Timetable.Store.Seed

/-!
# Seeded stores

Objects are created in an empty store one after the other. Each creation either stores its object with the next
version or leaves the data as they are and ends the seeding, so that what is stored is always a beginning of the row
of objects. The UIDs of the schedules are made on the way, and no reference in the row can name them: what was seeded
has no owner in the store.
-/

namespace Timetable

/-- One of some objects has this kind and key. -/
def Listed (objects : List Object) (kind : Kind) (key : Key) : Prop :=
  ∃ o ∈ objects, o.kind = kind ∧ o.key = key

/-- What a store asks of a new object: valid names, with room for those of children in the name of a schedule, a place
that is not taken, and for a work item that no fault is set. -/
structure Object.Admissible (o : Object) (taken : Kind → Key → Prop) (fault : Option StoreError) : Prop where
  space : Name.validate o.key.space = .ok ()
  name : Name.validate o.key.name = .ok ()
  room : o.kind = .schedule → o.key.name.utf8ByteSize ≤ Schedule.maxNameLength
  free : ¬taken o.kind o.key
  unharmed : o.kind = .workItem → fault = none

namespace Store
variable {s t u : Store} {stamp : Stamp} {stamps : Nat → Stamp} {o : Object} {made objects : List Object}

/-- Something is stored under this key. -/
def Holds (s : Store) (kind : Kind) (key : Key) : Prop :=
  s.objects.get? kind key ≠ none

lemma holds_iff {kind : Kind} {key : Key} : s.Holds kind key ↔ ∃ o, s.objects.get? kind key = some o :=
  Option.ne_none_iff_exists'

/-- Only creations are counted, and only a fault set for them is used up. -/
structure OnlyCreates (s t : Store) : Prop where
  faults : t.faults = { s.faults with nextCreate := t.faults.nextCreate }
  calls : t.calls = { s.calls with creates := t.calls.creates }

/-! ## One creation -/

lemma insertNew_of_free (hspace : Name.validate o.key.space = .ok ()) (hname : Name.validate o.key.name = .ok ())
    (hfree : ¬s.Holds o.kind o.key) (stamp : Stamp) :
    s.insertNew stamp o =
      (.ok (stamped o stamp (s.version + 1)), s.commit .added (stamped o stamp (s.version + 1))) := by
  have hkey : Key.of? o.key.space o.key.name = .ok o.key := Key.of?_eq_ok_iff.2 ⟨hspace, hname, rfl⟩
  have hnone : s.objects.get? o.kind o.key = none := not_not.1 hfree
  unfold insertNew
  simp only [hkey, hnone, Option.isSome_none, Bool.false_eq_true, if_false]

lemma insertNew_of_refused
    (h : ¬(Name.validate o.key.space = .ok () ∧ Name.validate o.key.name = .ok () ∧ ¬s.Holds o.kind o.key))
    (stamp : Stamp) : ∃ e, s.insertNew stamp o = (.error e, s) := by
  obtain ⟨e, he⟩ | ⟨hfree, ⟨key, hkey⟩, -⟩ := insertNew_cases s stamp o
  · exact ⟨e, he⟩
  · obtain ⟨hspace, hname, -⟩ := Key.of?_eq_ok_iff.1 hkey
    exact absurd ⟨hspace, hname, not_not.2 hfree⟩ h

theorem create_of_admissible (h : o.Admissible s.Holds s.faults.nextCreate) (stamp : Stamp) :
    ∃ t, s.create stamp o = (.ok (), t) ∧ SameData t (s.commit .added (stamped o stamp (s.version + 1))) ∧
      t.faults = s.faults ∧ OnlyCreates s t := by
  cases o with
  | schedule x =>
    have hroom : x.validateName = .ok () := Schedule.validateName_eq_ok_iff.2 (h.room rfl)
    have hinsert := insertNew_of_free h.space h.name h.free stamp
    refine ⟨_, ?_, SameData.refl _, rfl, rfl, rfl⟩
    simp only [create, createSchedule, hroom, hinsert]
    rfl
  | workItem w =>
    let counted : Store := { s with calls := { s.calls with creates := s.calls.creates + 1 } }
    have hfault : s.faults.nextCreate = none := h.unharmed rfl
    have hinsert := insertNew_of_free (s := counted) h.space h.name h.free stamp
    have hcounted : SameData counted s := ⟨rfl, rfl, rfl⟩
    refine ⟨_, ?_, hcounted.commit _ _, rfl, rfl, rfl⟩
    simp only [create, createWorkItem, hfault]
    rw [hinsert]
    rfl

/-- A creation that fails leaves the data as they are. -/
theorem create_of_not_admissible (h : ¬o.Admissible s.Holds s.faults.nextCreate) (stamp : Stamp) :
    ∃ e t, s.create stamp o = (.error e, t) ∧ SameData t s ∧ OnlyCreates s t := by
  cases o with
  | schedule x =>
    cases hroom : x.validateName with
    | error e =>
      refine ⟨.invalid e.message, s, ?_, SameData.refl s, rfl, rfl⟩
      simp only [create, createSchedule, hroom]
      rfl
    | ok _ =>
      have hrefused : ∃ e, s.insertNew stamp (.schedule x) = (.error e, s) := by
        apply insertNew_of_refused
        rintro ⟨hspace, hname, hfree⟩
        refine h ⟨hspace, hname, fun _ => Schedule.validateName_eq_ok_iff.1 hroom, hfree, ?_⟩
        rintro ⟨⟩
      obtain ⟨e, he⟩ := hrefused
      refine ⟨e, s, ?_, SameData.refl s, rfl, rfl⟩
      simp only [create, createSchedule, hroom, he]
      rfl
  | workItem w =>
    let counted : Store := { s with calls := { s.calls with creates := s.calls.creates + 1 } }
    cases hfault : s.faults.nextCreate with
    | some e =>
      refine ⟨e, s.refuse (.createWorkItem stamp w), ?_, ⟨rfl, rfl, rfl⟩, rfl, rfl⟩
      simp only [create, createWorkItem, hfault]
      rfl
    | none =>
      have hrefused : ∃ e, counted.insertNew stamp (.workItem w) = (.error e, counted) := by
        apply insertNew_of_refused
        rintro ⟨hspace, hname, hfree⟩
        refine h ⟨hspace, hname, ?_, hfree, fun _ => hfault⟩
        rintro ⟨⟩
      obtain ⟨e, he⟩ := hrefused
      refine ⟨e, counted, ?_, ⟨rfl, rfl, rfl⟩, rfl, rfl⟩
      simp only [create, createWorkItem, hfault]
      rw [he]
      rfl

/-! ## Creations one after the other -/

/-- What a store becomes when these objects are created in it, one after the other. -/
structure Stocked (stamps : Nat → Stamp) (made : List Object) (s t : Store) : Prop where
  /-- An object is stored as it was given, but for its own UID and time and the next version. -/
  stored (i : Nat) (o : Object) : made[i]? = some o →
    t.objects.get? o.kind o.key = some (stamped o (stamps i) (s.version + 1 + i))
  other (kind : Kind) (key : Key) : ¬Listed made kind key → t.objects.get? kind key = s.objects.get? kind key
  version : t.version = s.version + made.length
  /-- The creations are made known in this order. -/
  history : t.history =
    (made.mapIdx fun i o => ⟨.added, stamped o (stamps i) (s.version + 1 + i)⟩).foldl remember s.history
  onlyCreates : OnlyCreates s t

namespace Stocked

lemma nil (stamps : Nat → Stamp) (s : Store) : Stocked stamps [] s s where
  stored i o h := by simp at h
  other _ _ _ := rfl
  version := rfl
  history := rfl
  onlyCreates := ⟨rfl, rfl⟩

lemma sameData (h : Stocked stamps made s t) (hu : SameData u t) (honly : OnlyCreates t u) :
    Stocked stamps made s u where
  stored i o ho := by rw [hu.objects]; exact h.stored i o ho
  other kind key hnot := by rw [hu.objects]; exact h.other kind key hnot
  version := hu.version.trans h.version
  history := hu.history.trans h.history
  onlyCreates := ⟨by rw [honly.faults, h.onlyCreates.faults], by rw [honly.calls, h.onlyCreates.calls]⟩

lemma holds_of_mem (h : Stocked stamps made s t) (ho : o ∈ made) : t.Holds o.kind o.key := by
  obtain ⟨i, hi⟩ := List.mem_iff_getElem?.1 ho
  exact holds_iff.2 ⟨_, h.stored i o hi⟩

/-- In an empty store exactly the places of the objects created are taken. -/
lemma holds_eq (h : Stocked stamps made s t) (hempty : s.objects = .empty) : t.Holds = Listed made := by
  funext kind key
  refine propext ⟨fun hholds => ?_, ?_⟩
  · by_contra hnot
    apply hholds
    rw [h.other kind key hnot, hempty, Listing.get?_empty]
  · rintro ⟨o, ho, rfl, rfl⟩
    exact h.holds_of_mem ho

/-- One more object takes a place where nothing was. -/
lemma concat (h : Stocked stamps made s t) (hfree : ¬t.Holds o.kind o.key)
    (hu : SameData u (t.commit .added (stamped o (stamps made.length) (t.version + 1)))) (honly : OnlyCreates t u) :
    Stocked stamps (made ++ [o]) s u := by
  have hversion : t.version + 1 = s.version + 1 + made.length := by
    rw [h.version]
    omega
  have hget : ∀ kind key, u.objects.get? kind key =
      if o.kind = kind ∧ o.key = key then some (stamped o (stamps made.length) (s.version + 1 + made.length))
      else t.objects.get? kind key := by
    intro kind key
    rw [hu.objects, commit_objects, hversion, withVersion_stamped, Listing.get?_apply, kind_stamped, key_stamped]
    rfl
  constructor
  · intro i p hp
    rw [hget]
    by_cases hi : i < made.length
    · rw [List.getElem?_append_left hi] at hp
      have hplace : ¬(o.kind = p.kind ∧ o.key = p.key) := by
        rintro ⟨hkind, hkey⟩
        exact hfree (hkind ▸ hkey ▸ h.holds_of_mem (List.mem_of_getElem? hp))
      rw [if_neg hplace]
      exact h.stored i p hp
    · rw [List.getElem?_append_right (Nat.not_lt.1 hi), List.getElem?_singleton] at hp
      split_ifs at hp with hlast
      obtain rfl := Option.some.inj hp
      rw [if_pos ⟨rfl, rfl⟩, show i = made.length by omega]
  · intro kind key hnot
    have hplace : ¬(o.kind = kind ∧ o.key = key) := fun hp => hnot ⟨o, by simp, hp⟩
    rw [hget, if_neg hplace]
    exact h.other kind key fun ⟨p, hp, hwhere⟩ => hnot ⟨p, List.mem_append_left _ hp, hwhere⟩
  · rw [hu.version, commit_version, hversion, List.length_append, List.length_singleton]
    omega
  · rw [hu.history, commit_history, h.history, List.mapIdx_concat, List.foldl_concat, hversion, withVersion_stamped]
  · exact ⟨by rw [honly.faults, h.onlyCreates.faults], by rw [honly.calls, h.onlyCreates.calls]⟩

end Stocked

/-- Each object is admissible where those before it are stored. -/
def AllAdmissible (fault : Option StoreError) (objects : List Object) : Prop :=
  ∀ earlier o later, objects = earlier ++ o :: later → o.Admissible (Listed earlier) fault

lemma AllAdmissible.nil (fault : Option StoreError) : AllAdmissible fault [] := by
  intro earlier o later hsplit
  simp at hsplit

lemma AllAdmissible.concat {fault : Option StoreError} (h : AllAdmissible fault made)
    (ho : o.Admissible (Listed made) fault) : AllAdmissible fault (made ++ [o]) := by
  intro earlier p later hsplit
  obtain rfl | ⟨later, last, rfl⟩ := List.eq_nil_or_concat' later
  · obtain ⟨rfl, hlast⟩ := List.append_inj' hsplit rfl
    rw [← List.singleton_inj.1 hlast]
    exact ho
  · rw [← List.cons_append, ← List.append_assoc] at hsplit
    exact h earlier p later (List.append_inj' hsplit rfl).1

/-- Once some objects are stored, the rest is created up to the first that is not admissible. -/
theorem createAll_spec (hempty : s.objects = .empty) (h : Stocked stamps made s t) (hfaults : t.faults = s.faults)
    (hall : AllAdmissible s.faults.nextCreate made) (objects : List Object) :
    ∃ whole rest, made ++ objects = whole ++ rest ∧ AllAdmissible s.faults.nextCreate whole ∧
      Stocked stamps whole s (createAll stamps made.length t objects).2 ∧
      ((createAll stamps made.length t objects).1 = .ok whole.length ∧ rest = [] ∨
        ∃ o later e, rest = o :: later ∧ ¬o.Admissible (Listed whole) s.faults.nextCreate ∧
          (createAll stamps made.length t objects).1 = .error ⟨o.kind, o.key, e⟩) := by
  induction objects generalizing made t with
  | nil => exact ⟨made, [], rfl, hall, h, .inl ⟨rfl, rfl⟩⟩
  | cons o objects ih =>
    have hplaces : o.Admissible t.Holds t.faults.nextCreate ↔ o.Admissible (Listed made) s.faults.nextCreate := by
      rw [h.holds_eq hempty, hfaults]
    by_cases ho : o.Admissible (Listed made) s.faults.nextCreate
    · obtain ⟨u, hcreate, hu, hsame, honly⟩ := create_of_admissible (hplaces.2 ho) (stamps made.length)
      have hnext := ih (h.concat (hplaces.2 ho).free hu honly) (hsame.trans hfaults) (hall.concat ho)
      rw [List.append_assoc, List.singleton_append, List.length_append, List.length_singleton] at hnext
      simp only [createAll, hcreate]
      exact hnext
    · obtain ⟨e, u, hcreate, hu, honly⟩ := create_of_not_admissible (mt hplaces.1 ho) (stamps made.length)
      simp only [createAll, hcreate]
      exact ⟨made, o :: objects, rfl, hall, h.sameData hu honly, .inr ⟨o, objects, e, rfl, ho, rfl⟩⟩

/-! ## Owners -/

/-- What is stored was created. -/
lemma Stocked.exists_made (h : Stocked stamps made s t) (hempty : s.objects = .empty) {kind : Kind} {key : Key}
    {p : Object} (hp : t.objects.get? kind key = some p) :
    ∃ i o, made[i]? = some o ∧ p = stamped o (stamps i) (s.version + 1 + i) := by
  have hholds : t.Holds kind key := holds_iff.2 ⟨p, hp⟩
  rw [h.holds_eq hempty] at hholds
  obtain ⟨o, ho, rfl, rfl⟩ := hholds
  obtain ⟨i, hi⟩ := List.mem_iff_getElem?.1 ho
  rw [h.stored i o hi] at hp
  exact ⟨i, o, hi, (Option.some.inj hp).symm⟩

/-- Where no reference names a UID made by the store, nothing that was created owns anything else. -/
lemma Stocked.not_controlled (h : Stocked stamps made s t) (hempty : s.objects = .empty)
    (hfresh : ∀ n < made.length, ∀ o ∈ made, ∀ r ∈ o.metadata.owners, r.uid ≠ (stamps n).uid)
    {kind kind' : Kind} {key key' : Key} {child owner : Object} (hchild : t.objects.get? kind key = some child)
    (howner : t.objects.get? kind' key' = some owner) : child.metadata.isControlledBy owner.metadata = false := by
  obtain ⟨i, o, ho, rfl⟩ := h.exists_made hempty hchild
  obtain ⟨n, p, hp, rfl⟩ := h.exists_made hempty howner
  obtain ⟨hn, -⟩ := List.getElem?_eq_some_iff.1 hp
  rw [Bool.eq_false_iff]
  intro hcontrolled
  obtain ⟨-, before, r, after, howners, -, -, huid⟩ := Meta.isControlledBy_iff.1 hcontrolled
  rw [owners_stamped] at howners
  rw [uid_stamped] at huid
  have hr : r ∈ o.metadata.owners := by
    rw [howners]
    exact List.mem_append_right before List.mem_cons_self
  exact hfresh n hn o (List.mem_of_getElem? ho) r hr huid

/-! ## Seeding -/

lemma seedOrder_perm (objects : List Object) : (seedOrder objects).Perm objects := by
  have hother : (fun o : Object => o.kind == .workItem) = fun o => !(o.kind == .schedule) := by
    funext o
    cases o <;> rfl
  rw [seedOrder, hother]
  exact List.filter_append_perm _ objects

/-- An empty store is seeded with the schedules in their order and then with the work items in theirs, up to the first
that is not admissible after those before it. What was created is stored as it was given under consecutive versions,
nothing else is changed, and the seeding counts all objects or names the one that failed. Where no reference of an
object names a UID that the store makes, no work item has a schedule for its controller. -/
theorem seed_creates_prefix (hempty : s.objects = .empty) (stamps : Nat → Stamp) (objects : List Object)
    (hfresh : ∀ n < objects.length, ∀ o ∈ objects, ∀ r ∈ o.metadata.owners, r.uid ≠ (stamps n).uid) :
    ∃ made rest,
      objects.filter (·.kind == .schedule) ++ objects.filter (·.kind == .workItem) = made ++ rest ∧
      AllAdmissible s.faults.nextCreate made ∧
      Stocked stamps made s (s.seed stamps objects).2 ∧
      ((s.seed stamps objects).1 = .ok objects.length ∧ made.Perm objects ∧ rest = [] ∨
        ∃ o later e, rest = o :: later ∧ ¬o.Admissible (Listed made) s.faults.nextCreate ∧
          (s.seed stamps objects).1 = .error ⟨o.kind, o.key, e⟩) ∧
      ∀ (key other : Key) (w : WorkItem) (x : Schedule), (s.seed stamps objects).2.objects.workItems[key]? = some w →
        (s.seed stamps objects).2.objects.schedules[other]? = some x →
        w.metadata.isControlledBy x.metadata = false := by
  obtain ⟨made, rest, hsplit, hall, hstocked, hresult⟩ :=
    createAll_spec hempty (.nil stamps s) rfl (.nil _) (seedOrder objects)
  rw [List.nil_append] at hsplit
  have hperm := seedOrder_perm objects
  have hmade : ∀ o ∈ made, o ∈ objects := by
    intro o ho
    rw [← hperm.mem_iff, hsplit]
    exact List.mem_append_left rest ho
  have hlength : made.length ≤ objects.length := by
    rw [← hperm.length_eq, hsplit, List.length_append]
    exact Nat.le_add_right _ _
  refine ⟨made, rest, hsplit, hall, hstocked, ?_, fun key other w x hw hx => ?_⟩
  · obtain ⟨hok, rfl⟩ | hfailed := hresult
    · rw [List.append_nil] at hsplit
      rw [hsplit] at hperm
      exact .inl ⟨hperm.length_eq ▸ hok, hperm, rfl⟩
    · exact .inr hfailed
  · have hfresh' : ∀ n < made.length, ∀ o ∈ made, ∀ r ∈ o.metadata.owners, r.uid ≠ (stamps n).uid :=
      fun n hn o ho => hfresh n (hn.trans_le hlength) o (hmade o ho)
    have hchild : (s.seed stamps objects).2.objects.get? .workItem key = some (.workItem w) :=
      Option.map_eq_some_iff.2 ⟨w, hw, rfl⟩
    have howner : (s.seed stamps objects).2.objects.get? .schedule other = some (.schedule x) :=
      Option.map_eq_some_iff.2 ⟨x, hx, rfl⟩
    exact hstocked.not_controlled hempty hfresh' hchild howner

/-- A work item whose owner was written by hand. -/
def handWritten : WorkItem where
  metadata := { Meta.new "jobs" "tick-60" .blank with
    owners := [⟨Kind.schedule.name, "tick", .ofNat 7, true⟩] }
  spec := .bool true
  status := .initial

def manifests : List Object :=
  [.workItem handWritten, .schedule .minutely, .workItem handWritten]

def numbered (n : Nat) : Stamp :=
  ⟨.ofNat (100 + n), .ofSecond n⟩

/-- The second work item finds its place taken; the schedule, created first, is not the owner of the first one. -/
theorem seed_creates_prefix_repeated :
    (∀ n < manifests.length, ∀ o ∈ manifests, ∀ r ∈ o.metadata.owners, r.uid ≠ (numbered n).uid) ∧
    (empty.seed numbered manifests).1 =
      .error ⟨.workItem, handWritten.metadata.key, .alreadyExists Kind.workItem.name handWritten.metadata.key⟩ ∧
    Stocked numbered [.schedule .minutely, .workItem handWritten] empty (empty.seed numbered manifests).2 ∧
    ∀ (key other : Key) (w : WorkItem) (x : Schedule),
      (empty.seed numbered manifests).2.objects.workItems[key]? = some w →
      (empty.seed numbered manifests).2.objects.schedules[other]? = some x →
      w.metadata.isControlledBy x.metadata = false := by
  have hfresh : ∀ n < manifests.length, ∀ o ∈ manifests, ∀ r ∈ o.metadata.owners, r.uid ≠ (numbered n).uid := by
    decide +kernel
  obtain ⟨made, rest, hsplit, -, hstocked, -, howners⟩ :=
    seed_creates_prefix (s := empty) rfl numbered manifests hfresh
  have hversion : (empty.seed numbered manifests).2.version = 2 := by decide +kernel
  have hlength : made.length = 2 := by
    rw [hstocked.version] at hversion
    simpa [empty] using hversion
  have hmade : made = [.schedule .minutely, .workItem handWritten] := by
    rw [← List.take_left' hlength, ← hsplit]
    rfl
  exact ⟨hfresh, by decide +kernel, hmade ▸ hstocked, howners⟩

end Store

end Timetable
