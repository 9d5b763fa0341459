import Sysio.Permission.Changes

/-!
# The permissions of an account form a tree

Parents are numbers, numbers are given out in order, and a permission with children is not removed:
so a parent is an older permission of the same account, and following parents ends at `owner`.
`Shaped` is what every change keeps; that every account has its `owner` permission (`Rooted`) is
broken inside `newaccount` only.  For a shaped database the walk of `satisfies` ends, and decides
whether one permission is an ancestor of another (`satisfiesWithin_spec`).
-/

namespace Sysio.PermissionDatabase

open Result ObjectIndex PermissionObject Ancestor Table

variable {fuel id parent : ℕ} {auth : Authority} {account : Name} {e : Event}
  {other q this : PermissionObject} {codec : ActionCodec} {env : PermissionEnv}
  {db db' : PermissionDatabase}

/-- Where the permissions stand. -/
structure Shaped (db : PermissionDatabase) : Prop where
  /-- Number `0` stands for no parent. -/
  reserved : ∃ p ∈ db.permissions, p.id = 0 ∧ p.parent = 0 ∧ p.owner = Name.empty
  named : db.accounts.find? Name.empty = none
  account : ∀ p ∈ db.permissions, p.id ≠ 0 → db.accounts.find? p.owner ≠ none
  root : ∀ p ∈ db.permissions, p.id ≠ 0 → p.name = ownerName → p.parent = 0
  parent : ∀ p ∈ db.permissions, p.id ≠ 0 → p.name ≠ ownerName →
    ∃ q ∈ db.permissions, q.id = p.parent ∧ q.owner = p.owner ∧ q.id < p.id

/-- The permission is `owner` or `active`, which every account has. -/
def IsBasic (p : PermissionObject) : Prop := p.name = ownerName ∨ p.name = activeName

/-- Every account has the permissions `owner` and `active`. -/
def Rooted (db : PermissionDatabase) : Prop :=
  ∀ a ∈ db.accounts, (∃ p ∈ db.permissions, p.owner = a.name ∧ p.name = ownerName) ∧
    ∃ p ∈ db.permissions, p.owner = a.name ∧ p.name = activeName

namespace Shaped

variable {p : PermissionObject}

section

variable (hs : db.Shaped)
include hs

section

variable (hp : p ∈ db.permissions)
include hp

lemma owner_ne_empty (hid : p.id ≠ 0) : p.owner ≠ Name.empty := by
  intro howner
  exact hs.account p hp hid (howner ▸ hs.named)

lemma eq_reserved (hid : p.id = 0) : p.parent = 0 ∧ p.owner = Name.empty := by
  obtain ⟨r, hr, hr0, hparent, howner⟩ := hs.reserved
  rw [eq_of_id_eq hp hr (hid.trans hr0.symm)]
  exact ⟨hparent, howner⟩

lemma id_ne_zero (howner : p.owner ≠ Name.empty) : p.id ≠ 0 :=
  fun hid => howner (hs.eq_reserved hp hid).2

lemma exists_parent (hparent : p.parent ≠ 0) :
    ∃ q ∈ db.permissions, q.id = p.parent ∧ q.owner = p.owner ∧ q.id < p.id := by
  have hid : p.id ≠ 0 := fun hid => hparent (hs.eq_reserved hp hid).1
  exact hs.parent p hp hid fun hname => hparent (hs.root p hp hid hname)

end

/-! ### Changes -/

lemma creates {account name : Name} (h : db.Creates account name parent auth p db')
    (haccount : db.accounts.find? account ≠ none) (hroot : name = ownerName → parent = 0)
    (hparent : name ≠ ownerName → ∃ q ∈ db.permissions, q.id = parent ∧ q.owner = account) :
    db'.Shaped := by
  have hmem := h.created.mem_iff
  refine ⟨?_, ?_, ?_, ?_, ?_⟩
  · obtain ⟨r, hr, hreserved⟩ := hs.reserved
    exact ⟨r, (hmem r).mpr (.inl hr), hreserved⟩
  · rw [h.accounts_eq]
    exact hs.named
  · intro q hq hid
    rw [h.accounts_eq]
    rcases (hmem q).mp hq with hq | rfl
    · exact hs.account q hq hid
    · rwa [h.owner_eq]
  · intro q hq hid hname
    rcases (hmem q).mp hq with hq | rfl
    · exact hs.root q hq hid hname
    · rw [h.parent_eq]
      exact hroot (h.name_eq.symm.trans hname)
  · intro q hq hid hname
    rcases (hmem q).mp hq with hq | rfl
    · obtain ⟨r, hr, hrq⟩ := hs.parent q hq hid hname
      exact ⟨r, (hmem r).mpr (.inl hr), hrq⟩
    · obtain ⟨r, hr, hrid, hrowner⟩ := hparent (h.name_eq ▸ hname)
      refine ⟨r, (hmem r).mpr (.inl hr), hrid.trans h.parent_eq.symm,
        hrowner.trans h.owner_eq.symm, ?_⟩
      -- the new permission has the next number
      rw [h.created.id_eq]
      exact id_lt_of_mem hr

lemma modifies (h : db.Modifies p auth db') : db'.Shaped := by
  obtain ⟨f, hf, hmem⟩ := h.mem_iff
  have hmem' : ∀ q ∈ db.permissions, f q ∈ db'.permissions := fun q hq =>
    (hmem (f q)).mpr ⟨q, hq, rfl⟩
  refine ⟨?_, ?_, ?_, ?_, ?_⟩
  · obtain ⟨r, hr, hid, hparent, howner⟩ := hs.reserved
    exact ⟨f r, hmem' r hr, (hf r).1.id_eq.trans hid, (hf r).1.parent_eq.trans hparent,
      (hf r).1.owner_eq.trans howner⟩
  · rw [h.accounts_eq]
    exact hs.named
  · intro q hq hid
    obtain ⟨r, hr, rfl⟩ := (hmem q).mp hq
    rw [h.accounts_eq, (hf r).1.owner_eq]
    exact hs.account r hr ((hf r).1.id_eq ▸ hid)
  · intro q hq hid hname
    obtain ⟨r, hr, rfl⟩ := (hmem q).mp hq
    rw [(hf r).1.parent_eq]
    exact hs.root r hr ((hf r).1.id_eq ▸ hid) ((hf r).1.name_eq ▸ hname)
  · intro q hq hid hname
    obtain ⟨r, hr, rfl⟩ := (hmem q).mp hq
    obtain ⟨t, ht, htid, htowner, htlt⟩ :=
      hs.parent r hr ((hf r).1.id_eq ▸ hid) ((hf r).1.name_eq ▸ hname)
    refine ⟨f t, hmem' t ht, ?_, ?_, ?_⟩
    · rw [(hf t).1.id_eq, (hf r).1.parent_eq, htid]
    · rw [(hf t).1.owner_eq, (hf r).1.owner_eq, htowner]
    · rwa [(hf t).1.id_eq, (hf r).1.id_eq]

lemma removes (h : db.Removes p db') (howner : p.owner ≠ Name.empty) : db'.Shaped := by
  refine ⟨?_, ?_, ?_, ?_, ?_⟩
  · obtain ⟨r, hr, hr0, hreserved⟩ := hs.reserved
    refine ⟨r, (h.mem_iff r).mpr ⟨hr, ?_⟩, hr0, hreserved⟩
    rw [hr0]
    exact (hs.id_ne_zero h.mem howner).symm
  · rw [h.accounts_eq]
    exact hs.named
  · intro q hq
    rw [h.accounts_eq]
    exact hs.account q ((h.mem_iff q).mp hq).1
  · intro q hq
    exact hs.root q ((h.mem_iff q).mp hq).1
  · intro q hq hid hname
    obtain ⟨hq, -⟩ := (h.mem_iff q).mp hq
    obtain ⟨r, hr, hrid, hrq⟩ := hs.parent q hq hid hname
    -- the parent of another permission is not the one that was removed
    refine ⟨r, (h.mem_iff r).mpr ⟨hr, ?_⟩, hrid, hrq⟩
    rw [hrid]
    exact h.parent_ne q hq

lemma addsAccount {name : Name} {owner active : Authority}
    (hname : name ≠ Name.empty) (h : db.AddsAccount name owner active db') : db'.Shaped := by
  obtain ⟨db1, db2, o, a, date, hnew, haccounts, hpermissions, -, ho, ha⟩ := h
  have hfind (n : Name) : db1.accounts.find? n =
      if name = n then some ⟨name, date⟩ else db.accounts.find? n := by
    rw [haccounts]
    exact find?_insert hnew n
  have haccount : db1.accounts.find? name ≠ none := by
    rw [hfind, if_pos rfl]
    simp
  have hs1 : db1.Shaped := by
    refine ⟨?_, ?_, ?_, ?_, ?_⟩
    · rw [hpermissions]
      exact hs.reserved
    · rw [hfind, if_neg hname]
      exact hs.named
    · intro p hp hid
      rw [hpermissions] at hp
      rw [hfind]
      split_ifs
      · simp
      · exact hs.account p hp hid
    · rw [hpermissions]
      exact hs.root
    · rw [hpermissions]
      exact hs.parent
  have hs2 : db2.Shaped := hs1.creates ho haccount (fun _ => rfl) (absurd rfl)
  refine hs2.creates ha (by rwa [ho.accounts_eq]) (fun h => absurd h (by decide)) fun _ => ?_
  exact ⟨o, (ho.created.mem_iff o).mpr (.inr rfl), rfl, ho.owner_eq⟩

end

end Shaped

/-! ### What stays -/

/-- The permissions that `S` selects are still there, and where they were. -/
def Persists (S : PermissionObject → Prop) (db db' : PermissionDatabase) : Prop :=
  ∀ p ∈ db.permissions, S p → ∃ p' ∈ db'.permissions, p.SameNode p'

variable {S : PermissionObject → Prop} {p : PermissionObject} {owner active : Authority}
  {name : Name} {tr : List (Transition PermissionDatabase Event)} {genesis : Genesis}

lemma Creates.persists (h : db.Creates account name parent auth p db') : Persists S db db' :=
  fun q hq _ => ⟨q, (h.created.mem_iff q).mpr (.inl hq), .refl q⟩

lemma AddsAccount.persists (h : db.AddsAccount name owner active db') : Persists S db db' := by
  obtain ⟨db1, db2, o, a, date, -, -, hpermissions, -, ho, ha⟩ := h
  intro q hq _
  rw [← hpermissions] at hq
  exact ⟨q, (ha.created.mem_iff q).mpr (.inl ((ho.created.mem_iff q).mpr (.inl hq))), .refl q⟩

lemma Modifies.persists (h : db.Modifies p auth db') : Persists S db db' := by
  obtain ⟨f, hf, hmem⟩ := h.mem_iff
  exact fun q hq _ => ⟨f q, (hmem _).mpr ⟨q, hq, rfl⟩, (hf q).1⟩

lemma Removes.persists (h : db.Removes p db') (hp : ¬ S p) : Persists S db db' := by
  intro q hq hS
  refine ⟨q, (h.mem_iff q).mpr ⟨hq, fun hid => hp ?_⟩, .refl q⟩
  rwa [← eq_of_id_eq hq h.mem hid]

/-- If the event is a successful `deleteauth`, then of a permission that `S` does not select. -/
def Spares (codec : ActionCodec) (S : PermissionObject → Prop) (e : Event) : Prop :=
  ∀ env act remove p, e = .action env act → codec.call act = some (.deleteauth remove) →
    p.level = ⟨remove.account, remove.permission⟩ →
    p.name ≠ ownerName ∧ p.name ≠ activeName → ¬ S p

/-- Permissions stay unless they are deleted. -/
lemma persists_of_apply (hS : Spares codec S e)
    (h : db.apply codec e = .ok db') : Persists S db db' := by
  have hsame : db'.permissions = db.permissions → Persists S db db' := by
    intro hpermissions p hp _
    rw [← hpermissions] at hp
    exact ⟨p, hp, .refl p⟩
  cases change_of_apply h with
  | keep hpermissions _ _ | link _ hpermissions _ _ _ | unlink _ hpermissions _ _ =>
    exact hsame hpermissions
  | newaccount _ hadds _ _ _ => exact hadds.persists
  | create _ _ _ _ _ hcreates => exact hcreates.persists
  | modify _ _ _ _ hmodifies => exact hmodifies.persists
  | remove hcall hlevel _ hname _ hremoves =>
    exact hremoves.persists (hS _ _ _ _ rfl hcall hlevel hname)

lemma spares_isBasic (e : Event) : Spares codec IsBasic e :=
  fun _ _ _ _ _ _ _ hname => not_or.mpr hname

lemma persists_of_run (hS : ∀ p p', p.SameNode p' → S p → S p')
    (hspares : ∀ t ∈ tr, Spares codec S t.event) (hrun : Run (Step codec) db tr db') :
    Persists S db db' := by
  induction hrun with
  | nil => exact fun p hp _ => ⟨p, hp, .refl p⟩
  | snoc _ hstep ih =>
    intro p hp hSp
    obtain ⟨p1, hp1, hsame1⟩ := ih (fun t ht => hspares t (List.mem_append_left _ ht)) p hp hSp
    have hlast := hspares _ (List.mem_append_right _ List.mem_cons_self)
    obtain ⟨p2, hp2, hsame2⟩ := persists_of_apply hlast hstep p1 hp1 (hS p p1 hsame1 hSp)
    exact ⟨p2, hp2, hsame1.trans hsame2⟩

/-! ### Every step -/

lemma Persists.exists_level (h : Persists S db db')
    (hS : ∀ p : PermissionObject, p.name = name → S p)
    (hp : ∃ p ∈ db.permissions, p.owner = account ∧ p.name = name) :
    ∃ p ∈ db'.permissions, p.owner = account ∧ p.name = name := by
  obtain ⟨p, hp, howner, hname⟩ := hp
  obtain ⟨p', hp', hsame⟩ := h p hp (hS p hname)
  exact ⟨p', hp', hsame.owner_eq.trans howner, hsame.name_eq.trans hname⟩

lemma Rooted.of_persists (hr : db.Rooted) (h : Persists IsBasic db db')
    (haccounts : db'.accounts = db.accounts) : db'.Rooted := by
  intro a ha
  rw [haccounts] at ha
  exact ⟨h.exists_level (fun _ => .inl) (hr a ha).1, h.exists_level (fun _ => .inr) (hr a ha).2⟩

lemma Rooted.addsAccount (hr : db.Rooted)
    (h : db.AddsAccount name owner active db') : db'.Rooted := by
  have hpersists : Persists IsBasic db db' := h.persists
  obtain ⟨db1, db2, o, a, date, hnew, haccounts, -, -, ho, ha⟩ := h
  intro b hb
  rw [ha.accounts_eq, ho.accounts_eq, haccounts] at hb
  rcases (mem_insert hnew).mp hb with hb | rfl
  · exact ⟨hpersists.exists_level (fun _ => .inl) (hr b hb).1,
      hpersists.exists_level (fun _ => .inr) (hr b hb).2⟩
  · have ho' := (ho.created.mem_iff o).mpr (.inr rfl)
    exact ⟨⟨o, (ha.created.mem_iff o).mpr (.inl ho'), ho.owner_eq, ho.name_eq⟩,
      ⟨a, (ha.created.mem_iff a).mpr (.inr rfl), ha.owner_eq, ha.name_eq⟩⟩

lemma Shaped.of_eq (hs : db.Shaped) (hpermissions : db'.permissions = db.permissions)
    (haccounts : db'.accounts = db.accounts) : db'.Shaped := by
  obtain ⟨h1, h2, h3, h4, h5⟩ := hs
  exact ⟨hpermissions ▸ h1, haccounts ▸ h2, hpermissions ▸ haccounts ▸ h3, hpermissions ▸ h4,
    hpermissions ▸ h5⟩

/-- **Every event keeps the trees.** -/
theorem shaped_of_apply (hs : db.Shaped) (hr : db.Rooted)
    (h : db.apply codec e = .ok db') : db'.Shaped ∧ db'.Rooted := by
  have hpersists := persists_of_apply (spares_isBasic e) h
  cases change_of_apply h with
  | keep hpermissions haccounts _
  | link _ hpermissions haccounts _ _
  | unlink _ hpermissions haccounts _ =>
    exact ⟨hs.of_eq hpermissions haccounts, hr.of_persists hpersists haccounts⟩
  | newaccount hname hadds _ _ _ => exact ⟨hs.addsAccount hname hadds, hr.addsAccount hadds⟩
  | create _ haccount hparent hroot _ hcreates =>
    refine ⟨hs.creates hcreates haccount hroot fun hne => ?_,
      hr.of_persists hpersists hcreates.accounts_eq⟩
    obtain ⟨q, hq, hlevel, hid⟩ := hparent hne
    exact ⟨q, hq, hid, congrArg PermissionLevel.actor hlevel⟩
  | modify _ _ _ _ hmodifies =>
    exact ⟨hs.modifies hmodifies, hr.of_persists hpersists hmodifies.accounts_eq⟩
  | remove _ _ hnamed _ _ hremoves =>
    exact ⟨hs.removes hremoves hnamed.1, hr.of_persists hpersists hremoves.accounts_eq⟩

/-! ### The initial database -/

lemma shaped_reservePermission (h : reservePermission = some db) : db.Shaped ∧ db.Rooted := by
  obtain ⟨⟨p, index⟩, hr, rfl⟩ := Option.map_eq_some_iff.mp h
  obtain ⟨hp, hcreated⟩ := create_eq_some hr
  -- the only permission is the reserved one
  have hmem (q : PermissionObject) : q ∈ index ↔ q = p := by
    rw [hcreated.mem_iff q]
    simp
  have hid : p.id = 0 := by
    rw [hp]
    rfl
  refine ⟨⟨⟨p, (hmem p).mpr rfl, hid, ?_, ?_⟩, rfl, ?_, ?_, ?_⟩, ?_⟩
  · rw [hp]
  · rw [hp]
  · intro q hq hq0
    exact absurd ((hmem q).mp hq ▸ hid) hq0
  · intro q hq hq0
    exact absurd ((hmem q).mp hq ▸ hid) hq0
  · intro q hq hq0
    exact absurd ((hmem q).mp hq ▸ hid) hq0
  · intro a ha
    exact absurd ha (Table.not_mem_empty a)

lemma shaped_createNativeAccount
    {isPrivileged : Bool} (hs : db.Shaped ∧ db.Rooted) (hname : name ≠ Name.empty)
    (h : db.createNativeAccount env genesis name owner active isPrivileged = .ok db') :
    db'.Shaped ∧ db'.Rooted := by
  have hadds := addsAccount_of_createNativeAccount h
  exact ⟨hs.1.addsAccount hname hadds, hs.2.addsAccount hadds⟩

lemma shaped_initializeDatabase
    (h : initializeDatabase env genesis = .ok db) : db.Shaped ∧ db.Rooted := by
  simp only [initializeDatabase, bind_eq_ok, require_eq_ok, pure_eq_ok] at h
  obtain ⟨db0, h0, db1, h1, db2, h2, db3, h3, active, hactive, majority, hmajority, minority,
    hminority, rfl⟩ := h
  have hs1 := shaped_createNativeAccount (shaped_reservePermission h0) (by decide) h1
  have hs2 := shaped_createNativeAccount hs1 (by decide) h2
  obtain ⟨hs3, hr3⟩ := shaped_createNativeAccount hs2 (by decide) h3
  obtain ⟨-, hmem, hlevel⟩ := getPermission_eq_ok.mp hactive
  have howner : active.owner = producersAccountName := congrArg PermissionLevel.actor hlevel
  have hid : active.id ≠ 0 := hs3.id_ne_zero hmem (by rw [howner]; decide)
  have haccount : db3.accounts.find? producersAccountName ≠ none :=
    howner ▸ hs3.account active hmem hid
  have hmaj := createPermission_eq_ok hmajority
  have hmin := createPermission_eq_ok hminority
  have hs4 := hs3.creates hmaj haccount (fun h => absurd h (by decide))
    fun _ => ⟨active, hmem, rfl, howner⟩
  have hs5 := hs4.creates hmin (by rwa [hmaj.accounts_eq]) (fun h => absurd h (by decide))
    fun _ => ⟨majority.1, (hmaj.created.mem_iff _).mpr (.inr rfl), rfl, hmaj.owner_eq⟩
  exact ⟨hs5, (hr3.of_persists hmaj.persists hmaj.accounts_eq).of_persists hmin.persists
    hmin.accounts_eq⟩

/-! ### Ancestors -/

/-- The number of the parent of a permission. -/
def parentOf (db : PermissionDatabase) (id : ℕ) : Option ℕ :=
  (db.permissions.findId? id).bind fun p => if p.parent = 0 then none else some p.parent

lemma parentOf_id (hp : p ∈ db.permissions) :
    db.parentOf p.id = if p.parent = 0 then none else some p.parent := by
  unfold parentOf
  rw [findId?_id hp]
  rfl

/-- From a permission whose parent is not the one that is looked for, the walk goes on to the
parent. -/
lemma ancestor_iff_of_parent (hp : p ∈ db.permissions)
    (hparent : p.parent ≠ 0) (hq : q.id = p.parent) (hne : id ≠ p.parent) :
    (∃ i, db.parentOf p.id = some i ∧ Ancestor db.parentOf id i) ↔
      ∃ i, db.parentOf q.id = some i ∧ Ancestor db.parentOf id i := by
  rw [parentOf_id hp, if_neg hparent]
  constructor
  · rintro ⟨i, hi, hancestor⟩
    cases hi
    rw [← hq] at hancestor hne
    exact (iff_parent.mp hancestor).resolve_left hne
  · intro h
    exact ⟨p.parent, rfl, hq ▸ iff_parent.mpr (.inr h)⟩

/-- The loop ends, since numbers get smaller on the way up. -/
lemma satisfiesLoop_spec (hs : db.Shaped) (hid : id ≠ 0)
    (hp : p ∈ db.permissions) (hfuel : p.id < fuel) :
    ∃ b, satisfiesLoop id db.permissions fuel p = .ok b ∧
      (b = true ↔ ∃ i, db.parentOf p.id = some i ∧ Ancestor db.parentOf id i) := by
  induction fuel generalizing p with
  | zero => exact absurd hfuel (Nat.not_lt_zero _)
  | succ fuel ih =>
    unfold satisfiesLoop
    by_cases hfound : id = p.parent
    · rw [if_pos hfound]
      refine ⟨true, rfl, iff_of_true rfl ⟨id, ?_, .refl id⟩⟩
      rw [parentOf_id hp, if_neg (hfound ▸ hid), hfound]
    · rw [if_neg hfound]
      by_cases hparent : p.parent = 0
      · rw [if_pos hparent]
        refine ⟨false, rfl, iff_of_false (by simp) ?_⟩
        rw [parentOf_id hp, if_pos hparent]
        rintro ⟨i, hi, -⟩
        cases hi
      · rw [if_neg hparent]
        obtain ⟨q, hq, hqid, -, hlt⟩ := hs.exists_parent hp hparent
        rw [← hqid, findId?_id hq, ancestor_iff_of_parent hp hparent hqid hfound]
        exact ih hq (by omega)

/-- **`satisfies` ends, and compares two permissions as the hierarchy does.** -/
theorem satisfiesWithin_spec (hs : db.Shaped)
    (hthis : this ∈ db.permissions) (hother : other ∈ db.permissions)
    (hfuel : db.permissions.nextId ≤ fuel) :
    ∃ b, satisfiesWithin fuel this other db.permissions = .ok b ∧
      (b = true ↔ this.owner = other.owner ∧ Ancestor db.parentOf this.id other.id) := by
  unfold satisfiesWithin
  by_cases howner : this.owner = other.owner
  · rw [if_neg (not_not.mpr howner)]
    by_cases hid : this.id = other.id
    · rw [if_pos (.inl hid)]
      exact ⟨true, rfl, iff_of_true rfl ⟨howner, hid ▸ .refl _⟩⟩
    · -- the reserved permission is the only one of its owner
      have hthis0 : this.id ≠ 0 := by
        intro h0
        have hempty := (hs.eq_reserved hthis h0).2
        have hother0 : other.id = 0 := by
          by_contra hne
          exact hs.owner_ne_empty hother hne (howner ▸ hempty)
        exact hid (h0.trans hother0.symm)
      by_cases hparent : this.id = other.parent
      · rw [if_pos (.inr hparent)]
        refine ⟨true, rfl, iff_of_true rfl ⟨howner, (refl this.id).of_parent ?_⟩⟩
        rw [parentOf_id hother, if_neg (hparent ▸ hthis0), hparent]
      · rw [if_neg (not_or.mpr ⟨hid, hparent⟩)]
        simp only [howner, true_and, iff_parent (b := other.id), hid, false_or]
        by_cases hroot : other.parent = 0
        · obtain ⟨r, hr, hr0, hrparent, -⟩ := hs.reserved
          rw [hroot, ← hr0, findId?_id hr, parentOf_id hother, if_pos hroot]
          obtain ⟨b, hb, hiff⟩ := satisfiesLoop_spec hs hthis0 hr ((id_lt_of_mem hr).trans_le hfuel)
          refine ⟨b, hb, hiff.trans (iff_of_false ?_ ?_)⟩
          · rw [parentOf_id hr, if_pos hrparent]
            rintro ⟨i, hi, -⟩
            cases hi
          · rintro ⟨i, hi, -⟩
            cases hi
        · obtain ⟨q, hq, hqid, -, -⟩ := hs.exists_parent hother hroot
          rw [← hqid, findId?_id hq, ancestor_iff_of_parent hother hroot hqid hparent]
          exact satisfiesLoop_spec hs hthis0 hq ((id_lt_of_mem hq).trans_le hfuel)
  · rw [if_pos howner]
    exact ⟨false, rfl, iff_of_false (by simp) fun h => howner h.1⟩

/-! ### Runs -/

lemma shaped_of_run {db0 : PermissionDatabase} (hinit : initializeDatabase env genesis = .ok db0)
    (hrun : Run (Step codec) db0 tr db) : db.Shaped ∧ db.Rooted :=
  hrun.invariant (P := fun db => db.Shaped ∧ db.Rooted) (shaped_initializeDatabase hinit)
    fun _ _ _ hs hstep => shaped_of_apply hs.1 hs.2 hstep

/-- The one permission of an account without a parent is `owner`. -/
lemma Shaped.exists_root (hs : db.Shaped) (hr : db.Rooted) {a : AccountObject}
    (ha : a ∈ db.accounts) :
    ∃ p ∈ db.permissions, p.owner = a.name ∧ p.parent = 0 ∧ p.name = ownerName ∧
      ∀ q ∈ db.permissions, q.owner = a.name → q.parent = 0 → q = p := by
  have hempty : a.name ≠ Name.empty := by
    intro h
    have hfind := find?_key ha
    rw [h, hs.named] at hfind
    cases hfind
  obtain ⟨p, hp, howner, hname⟩ := (hr a ha).1
  have hid := hs.id_ne_zero hp (howner ▸ hempty)
  refine ⟨p, hp, howner, hs.root p hp hid hname, hname, ?_⟩
  intro q hq hqowner hqparent
  have hqid := hs.id_ne_zero hq (hqowner ▸ hempty)
  have hqname : q.name = ownerName := by
    by_contra hne
    -- the parent would be the reserved permission, which has no account
    obtain ⟨r, hr, hrid, hrowner, -⟩ := hs.parent q hq hqid hne
    have hrempty := (hs.eq_reserved hr (hrid.trans hqparent)).2
    exact hs.owner_ne_empty hq hqid (hrowner ▸ hrempty)
  apply ObjectIndex.eq_of_key_eq hq hp
  unfold PermissionObject.level
  rw [hqowner, howner, hqname, hname]

lemma applyAction_ne_ok_of_owner {act : Action} {remove : DeleteAuth}
    (hcall : codec.call act = some (.deleteauth remove)) (hname : remove.permission = ownerName) :
    db.applyAction codec env act ≠ .ok db' := by
  intro h
  have h := applyCall_of_call hcall h
  simp only [applyCall, applySysioDeleteauth, bind_eq_ok, sysAssert_eq_ok] at h
  obtain ⟨-, -, -, -, -, howner, -⟩ := h
  exact howner hname

/-- **The permission forest.**  In every state of a chain: a permission other than `owner` has an
older permission of its account as its parent; every account has one permission without a parent,
its `owner`, which was there in every earlier state since its creation, in its place, and cannot be
deleted; and `satisfies` ends, in as many rounds as there are numbers, and is true of exactly the
permissions of one account of which the first is the second or an ancestor of it. -/
theorem forest_of_run {genesis : Genesis} {db₀ : PermissionDatabase}
    {tr : List (Transition PermissionDatabase Event)}
    (hinit : initializeDatabase env genesis = .ok db₀) (hrun : Run (Step codec) db₀ tr db) :
    (∀ p ∈ db.permissions, p.id ≠ 0 → p.name ≠ ownerName →
      ∃ q ∈ db.permissions, q.id = p.parent ∧ q.owner = p.owner ∧ q.id < p.id) ∧
    (∀ a ∈ db.accounts, ∃ p ∈ db.permissions, p.owner = a.name ∧ p.parent = 0 ∧
      p.name = ownerName ∧ ∀ q ∈ db.permissions, q.owner = a.name → q.parent = 0 → q = p) ∧
    (∀ t ∈ tr, ∀ p ∈ t.pre.permissions, p.name = ownerName → ∃ p' ∈ db.permissions, p.SameNode p') ∧
    (∀ env act remove db', codec.call act = some (.deleteauth remove) →
      remove.permission = ownerName → db.applyAction codec env act ≠ .ok db') ∧
    ∀ this ∈ db.permissions, ∀ other ∈ db.permissions, ∀ fuel, db.permissions.nextId ≤ fuel →
      ∃ b, satisfiesWithin fuel this other db.permissions = .ok b ∧
        (b = true ↔ this.owner = other.owner ∧ Ancestor db.parentOf this.id other.id) := by
  obtain ⟨hs, hr⟩ := shaped_of_run hinit hrun
  refine ⟨hs.parent, fun a ha => hs.exists_root hr ha, ?_, ?_, ?_⟩
  · intro t ht
    obtain ⟨l1, l2, -, -, hrest⟩ := hrun.split ht
    have hpersists : Persists IsBasic t.pre db :=
      persists_of_run (fun p p' hsame => by rw [IsBasic, IsBasic, hsame.name_eq]; exact id)
        (fun t _ => spares_isBasic t.event) hrest
    exact fun p hp hname => hpersists p hp (.inl hname)
  · exact fun _ _ _ _ hcall hname => applyAction_ne_ok_of_owner hcall hname
  · exact fun this hthis other hother fuel hfuel => satisfiesWithin_spec hs hthis hother hfuel

/-- An account name for examples. -/
def demoAccount : Name := Name.ofChars ['a', 'l', 'i', 'c', 'e']

@[inherit_doc demoAccount]
def demoPermission : Name := Name.ofChars ['m', 'o', 'n', 'e', 'y']

def demoAuthority : Authority := ⟨1, [⟨⟨0, 1⟩, 1⟩], [], []⟩

/-- A codec under which a byte of data stands for each of the actions below. -/
def demoCodec : ActionCodec where
  newaccount _ := .ok ⟨sysioName, demoAccount, demoAuthority, demoAuthority⟩
  updateauth data := .ok ⟨demoAccount, demoPermission,
    if data = [0] then activeName else ownerName, demoAuthority⟩
  deleteauth _ := .ok ⟨demoAccount, demoPermission⟩
  linkauth _ := .ok ⟨demoAccount, demoAccount, Name.empty, demoPermission⟩
  unlinkauth _ := .ok ⟨demoAccount, demoAccount, Name.empty⟩

/-- A node without blacklists, with all features. -/
def demoEnv : PermissionEnv := ⟨false, false, false, [], 2, 1000, 3600, true⟩

def demoAction (handler : NativeHandler) (actor permission : Name) (data : List UInt8) : Action :=
  ⟨sysioName, handler.actionName, [⟨actor, permission⟩], data⟩

/-- An account is created, then a permission below `active`, which is removed again. -/
def demoEvents : List Event :=
  [.action demoEnv (demoAction .newaccount sysioName activeName []),
    .action demoEnv (demoAction .updateauth demoAccount activeName [0]),
    .action demoEnv (demoAction .deleteauth demoAccount activeName [])]

lemma exists_demoRun (events : List Event)
    {P : List (Transition PermissionDatabase Event) → PermissionDatabase → Prop}
    [∀ tr s, Decidable (P tr s)]
    (h : ((initializeDatabase demoEnv ⟨⟨0, 1⟩, 500⟩).toOption.any fun db0 =>
      (carryOut (fun db e => (db.apply demoCodec e).toOption) db0 events).any
        fun r => P r.1 r.2) = true) :
    ∃ db0 tr db, initializeDatabase demoEnv ⟨⟨0, 1⟩, 500⟩ = .ok db0 ∧
      Run (Step demoCodec) db0 tr db ∧ P tr db := by
  obtain ⟨db0, h0, h⟩ := (Option.any_eq_true _ _).mp h
  obtain ⟨tr, db, hrun, hP⟩ := exists_run_of_carryOut
    (fun db e => (db.apply demoCodec e).toOption) db0 events
    (fun _ _ _ hnext => eq_ok_of_toOption hnext) h
  exact ⟨db0, tr, db, eq_ok_of_toOption h0, hrun, hP⟩

/-- The theorem at this run, in whose last state the new account has its two permissions. -/
theorem forest_of_run_demoEvents : ∃ db₀ tr db, initializeDatabase demoEnv ⟨⟨0, 1⟩, 500⟩ = .ok db₀ ∧
      Run (Step demoCodec) db₀ tr db ∧ tr.length = 3 ∧
      (∃ a ∈ db.accounts.rows, a.name = demoAccount) ∧
      ∀ a ∈ db.accounts, ∃ p ∈ db.permissions, p.owner = a.name ∧ p.parent = 0 ∧
        p.name = ownerName ∧ ∀ q ∈ db.permissions, q.owner = a.name → q.parent = 0 → q = p := by
  obtain ⟨db₀, tr, db, h0, hrun, hP⟩ := exists_demoRun demoEvents
    (P := fun tr db => tr.length = 3 ∧ ∃ a ∈ db.accounts.rows, a.name = demoAccount)
    (by decide +kernel)
  obtain ⟨hlength, haccount⟩ := hP
  exact ⟨db₀, tr, db, h0, hrun, hlength, haccount, (forest_of_run h0 hrun).2.1⟩

end Sysio.PermissionDatabase
