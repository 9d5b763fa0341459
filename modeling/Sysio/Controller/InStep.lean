import Sysio.Controller.LogIrreversible

/-!
# The logs stay in step

`Aligned` says that the block log, the block state log and the database all end with a given block.
Between two calls of `log_irreversible` that block is the root of the fork database; inside the loop
it is the block logged last (`Reached`), to which the root can be advanced, whatever throws.

One round of the loop has two parts.  `applyBlock_spec` is about the fork database, and needed only
in the irreversible read mode, where the head of the fork database is the block applied last;
`record_spec` is about the logs and the database.  The latter needs that a failing append leaves the
block log alone, and that the block state log does not fail at all: when it does, the block log is
ahead of the root for good.  In the irreversible read mode nothing may throw after the block was
applied, since the chain head is then ahead of the root, and the block cannot be applied again.
-/

namespace Sysio

open List Option BlockState Command BlockLog Table ChainStores

variable {index : ForkIndex} {a last : BlockState}

/-- The faults that leave the logs in step: the block log fails before it has written the block, and
the block state log, if there is one, does not fail.  In the irreversible read mode only applying
the block fails. -/
def LogFaults.Harmless (mode : ReadMode) (fault : LogFaults) (hasSlog : Bool) : Prop :=
  (mode = .irreversible → fault.emit = .none ∧ fault.blog = .none) ∧
    (fault.blog = .none ∨ fault.blog = some .blockFile) ∧ (hasSlog = true → fault.slog = .none)

namespace ChainStores

open ForkDatabase ForkIndex

variable {mode : ReadMode} {past : List BlockState} {start root fhead cur b : BlockState}
  {s s' : ChainStores}

/-! ### The stores end with the same block -/

/-- The blocks of the list lead from one block to another, each built on the one before. -/
inductive Links : BlockState → List BlockState → BlockState → Prop
  | nil (a : BlockState) : Links a [] a
  | snoc {a b c : BlockState} {l : List BlockState} : Links a l b → c.header.previous = b.id →
      c.blockNum = b.blockNum + 1 → Links a (l ++ [c]) c

/-- The logs and the database end with the block `b`; since the block log held `past` and ended with
`start`, the blocks in between have been appended to it one by one. -/
structure Aligned (past : List BlockState) (start : BlockState) (s : ChainStores)
    (b : BlockState) : Prop where
  blog : s.blog.InStep b
  blog_head : ∀ h, s.blog.head = some h → h.id = b.id
  slog : ∀ log, s.slog = some log → log.InStep b
  slog_head : ∀ log, s.slog = some log → log.head ≠ none → s.blog.head ≠ none
  committed : s.committed = b.blockNum
  empty : s.blog.head = none → s.blog.blocks = past
  recorded : ∃ new last, s.blog.blocks = past ++ new ∧ Links start new last ∧ last.id = b.id

variable {c : BlockState} {fault : LogFaults} {db : ForkDatabase} {branch : List BlockState}
  {faults : BlockId → LogFaults}

/-- Only the id of the block matters, and the logs and the database of the stores. -/
lemma Aligned.of_id (h : Aligned past start s b) (hid : c.id = b.id)
    (hblog : s'.blog = s.blog) (hslog : s'.slog = s.slog)
    (hcommitted : s'.committed = s.committed) : Aligned past start s' c := by
  obtain ⟨new, last, hnew, hlinks, hlast⟩ := h.recorded
  constructor
  · rw [hblog]
    exact h.blog.of_id hid
  · rw [hblog, hid]
    exact h.blog_head
  · rw [hslog]
    exact fun log hlog => (h.slog log hlog).of_id hid
  · rw [hblog, hslog]
    exact h.slog_head
  · rw [hcommitted, h.committed, blockNum_eq_of_id hid]
  · rw [hblog]
    exact h.empty
  · exact ⟨new, last, hblog ▸ hnew, hlinks, hlast.trans hid.symm⟩

/-- The next block brings them all one further. -/
lemma Aligned.appended (h : Aligned past start s cur) (hprev : b.header.previous = cur.id)
    (hnum : b.blockNum = cur.blockNum + 1) : Aligned past start { s with
      blog := s.blog.appended b
      slog := s.slog.map fun log => log.appended b
      committed := b.blockNum } b := by
  obtain ⟨new, last, hnew, hlinks, hlast⟩ := h.recorded
  constructor
  · exact h.blog.appended hnum
  · rintro _ ⟨⟩
    rfl
  · intro log hlog
    obtain ⟨log0, hlog0, rfl⟩ := map_eq_some_iff.mp hlog
    exact (h.slog log0 hlog0).appended hnum
  · intro log _ _
    exact some_ne_none b
  · rfl
  · exact fun hnone => absurd hnone (some_ne_none b)
  · refine ⟨new ++ [b], b, ?_, ?_, rfl⟩
    · show s.blog.blocks ++ [b] = past ++ (new ++ [b])
      rw [hnew, append_assoc]
    · refine hlinks.snoc (hprev.trans hlast.symm) ?_
      rw [hnum, blockNum_eq_of_id hlast]

/-! ### One block goes to the logs -/

lemma appendBlog_exec (h : s.blog.InStep cur) (hnum : b.blockNum = cur.blockNum + 1) :
    (appendBlog b none).exec s = (.ok (), { s with blog := s.blog.appended b }) := by
  unfold appendBlog
  rw [exec_act, h.append_eq hnum]

lemma appendBlog_blockFile (s : ChainStores) (b : BlockState) :
    ∃ e, (appendBlog b (some .blockFile)).exec s = (.error e, s) := by
  obtain ⟨e, he⟩ := append_blockFile s.blog b
  refine ⟨e, ?_⟩
  unfold appendBlog
  rw [exec_act, he]

lemma appendSlog_exec (h : ∀ log, s.slog = some log → log.InStep cur)
    (hnum : b.blockNum = cur.blockNum + 1) {fault : Option AppendFault}
    (hf : s.slog.isSome = true → fault = none) : (appendSlog b fault).exec s =
      (.ok (), { s with slog := s.slog.map fun log => log.appended b }) := by
  obtain ⟨db, head, blog, slog, committed⟩ := s
  cases slog with
  | none => rfl
  | some log =>
    rw [hf rfl]
    unfold appendSlog
    rw [exec_act]
    simp only [(h log rfl).append_eq hnum, map_some]

/-- **One block goes to both logs and the database, or to none of them.** -/
theorem record_spec (h : Aligned past start s cur) (hnum : b.blockNum = cur.blockNum + 1)
    (hf : fault.Harmless mode s.slog.isSome) : (record b fault).exec s = (.ok (), { s with
        blog := s.blog.appended b
        slog := s.slog.map fun log => log.appended b
        committed := b.blockNum }) ∨
      mode ≠ .irreversible ∧ fault ≠ .none ∧ ∃ e, (record b fault).exec s = (.error e, s) := by
  obtain ⟨hafter, hblog, hslog⟩ := hf
  unfold record
  cases hemit : fault.emit with
  | some e =>
    refine .inr ⟨fun hmode => ?_, ?_, e, exec_bind_of_error rfl⟩
    · exact nomatch hemit.symm.trans (hafter hmode).1
    · rintro rfl
      cases hemit
  | none =>
    have hemitted : (emit none).exec s = (.ok (), s) := rfl
    rw [exec_bind_of_ok hemitted]
    rcases hblog with hblog | hblog
    · left
      rw [hblog, exec_bind_of_ok (appendBlog_exec h.blog hnum)]
      -- the block state log has not changed yet
      have hlog : ∀ log, ({ s with blog := s.blog.appended b } : ChainStores).slog = some log →
          log.InStep cur := h.slog
      rw [exec_bind_of_ok (appendSlog_exec hlog hnum hslog)]
      rfl
    · obtain ⟨e, he⟩ := appendBlog_blockFile s b
      refine .inr ⟨fun hmode => ?_, ?_, e, by rw [hblog]; exact exec_bind_of_error he⟩
      · exact nomatch hblog.symm.trans (hafter hmode).2
      · rintro rfl
        cases hblog

/-! ### The fork database -/

/-- The fork database between two operations, with the root and the head given.  In the irreversible
read mode its head is the chain head, and other validated blocks have smaller numbers; in the others
validated blocks are built on validated blocks. -/
structure ForkReady (mode : ReadMode) (s : ChainStores) (root fhead : BlockState) : Prop where
  root_eq : s.forkDb.root = some root
  head_eq : s.forkDb.head = some fhead
  tree : TreeInv s.forkDb.index root fhead
  validUp : mode ≠ .irreversible → ValidUp s.forkDb.index root
  applied : mode = .irreversible → s.head.id = fhead.id ∧
    ∀ v ∈ s.forkDb.index, v.validated = true → v.id = fhead.id ∨ v.blockNum < fhead.blockNum

/-- The loop has come to the block `cur`, and the root can be advanced to it.  In the irreversible
read mode it is the block applied last. -/
structure Reached (mode : ReadMode) (past : List BlockState) (start root : BlockState)
    (s : ChainStores) (cur fhead : BlockState) : Prop where
  ready : ForkReady mode s root fhead
  current : mode = .irreversible → fhead.id = cur.id
  aligned : Aligned past start s cur
  above : AtOrAbove s.forkDb.index cur fhead
  valid : cur = root ∨ ∃ c ∈ s.forkDb.index,
    c.toBlockHeaderState = cur.toBlockHeaderState ∧ c.validated = true

/-- The candidate for the head, once a block that is better than the head is marked as valid. -/
lemma candidate_setValid (hi : TreeInv index root fhead)
    (hb : b ∈ index) (hpref : firstPreferred b.toBlockHeaderState fhead.toBlockHeaderState)
    (hc : (index.setValid b.id).candidate = some c) :
    c.toBlockHeaderState = b.toBlockHeaderState ∧ c.validated = true := by
  have hb' : ({ b with validated := true } : BlockState) ∈ index.setValid b.id :=
    mem_setValid.mpr (.inr ⟨b, hb, rfl, rfl⟩)
  obtain ⟨hcv, hcb⟩ := not_firstPreferred_candidate hc hb' rfl
  refine ⟨?_, hcv⟩
  rcases mem_setValid.mp (candidate_spec hc).1 with ⟨hci, -⟩ | ⟨p, hp, hid, rfl⟩
  · -- a block validated before is not better than the head
    have hbest := hi.best c hci hcv
    exact absurd hpref (not_firstPreferred_trans hcb hbest)
  · rw [eq_of_key_eq hp hb hid]

/-- Marked as valid, a block that is better than the head becomes the head. -/
lemma markValid_of_firstPreferred (hi : TreeInv db.index root fhead)
    (hhead : db.head = some fhead) (hb : Held db.index b) (hval : b.validated = false)
    (hpref : firstPreferred b.toBlockHeaderState fhead.toBlockHeaderState) :
    ∃ c, db.markValid b = .ok { db with index := db.index.setValid b.id, head := some c } ∧
      c ∈ db.index.setValid b.id ∧ c.toBlockHeaderState = b.toBlockHeaderState ∧
      c.validated = true := by
  obtain ⟨b', hb', heq, -⟩ := hb
  have hid : b'.id = b.id := congrArg (fun h => h.id) heq
  have hmem : ({ b' with validated := true } : BlockState) ∈ db.index.setValid b.id :=
    mem_setValid.mpr (.inr ⟨b', hb', hid, rfl⟩)
  obtain ⟨c, hc⟩ := exists_candidate hmem
  have hcand : c.toBlockHeaderState = b'.toBlockHeaderState ∧ c.validated = true := by
    rw [← hid] at hc
    exact candidate_setValid hi hb' (by rwa [heq]) hc
  have hcb : c.toBlockHeaderState = b.toBlockHeaderState := hcand.1.trans heq
  refine ⟨c, ?_, (candidate_spec hc).1, hcb, hcand.2⟩
  have hfind : db.index.find? b.id = some b' := find?_eq_some.mpr ⟨hb', hid⟩
  unfold markValid
  rw [if_neg (by rw [hval]; decide), hfind, if_pos isSome_some, hc, hhead]
  simp only [hcb, hpref, if_true]
  rfl

section

variable (h : Reached mode past start root s cur fhead)
include h

/-- The head of the fork database that has the id of `cur` is that block. -/
lemma Reached.head_eq_of_id
    (hid : fhead.id = cur.id) : fhead.toBlockHeaderState = cur.toBlockHeaderState := by
  rcases h.above with heq | hdesc
  · exact heq
  · have hlt := hdesc.above
    have hnum := blockNum_eq_of_id hid
    omega

/-- A block of the branch continues the one before it. -/
lemma Reached.continues (hb : Held s.forkDb.index b) (hprev : b.header.previous = cur.id) :
    ContinuesBlock cur b := by
  obtain ⟨b', hb', hbb, -⟩ := hb
  obtain ⟨p, hp, hprev', hcont⟩ := h.ready.tree.parents b' hb'
  rw [hbb, hprev] at hprev'
  have hheader : p.toBlockHeaderState = cur.toBlockHeaderState := by
    rcases h.valid with rfl | ⟨c, hc, hcur, -⟩
    · rw [Known.eq_of_id h.ready.tree.linked hp (.inl rfl) hprev'.symm]
    · have hid : p.id = c.id := hprev'.symm.trans (congrArg (fun x => x.id) hcur).symm
      rw [Known.eq_of_id h.ready.tree.linked hp (.inr hc) hid, hcur]
  unfold ContinuesBlock at hcont ⊢
  rwa [hheader, hbb] at hcont

/-- The fork database after the block built on its head has been applied. -/
lemma Reached.setValid (hmode : mode = .irreversible) (hcont : ContinuesBlock cur b)
    (hm : s.forkDb.markValid b =
      .ok { s.forkDb with index := s.forkDb.index.setValid b.id, head := some c })
    (hcid : c.id = b.id) :
    ForkReady mode { s with
      forkDb := { s.forkDb with index := s.forkDb.index.setValid b.id, head := some c }
      head := b } root c := by
  have hcnum := blockNum_eq_of_id hcid
  have hinv := markValid_inv (.inr ⟨root, fhead, h.ready.root_eq, h.ready.head_eq, h.ready.tree⟩) hm
  obtain ⟨c', hc', htree⟩ := hinv.of_root h.ready.root_eq
  cases hc'
  refine ⟨h.ready.root_eq, rfl, htree, fun hne => absurd hmode hne, fun _ => ⟨hcid.symm, ?_⟩⟩
  intro v hv hvv
  rcases mem_setValid.mp hv with ⟨hv, -⟩ | ⟨p, -, hid, rfl⟩
  · -- validated before, so its number is at most that of the former head
    right
    have hnum := hcont.1
    have hcur := blockNum_eq_of_id (h.current hmode)
    rcases (h.ready.applied hmode).2 v hv hvv with hid | hlt
    · have := blockNum_eq_of_id hid
      omega
    · omega
  · exact .inl (hid.trans hcid.symm)

/-- In the irreversible read mode a block is applied, and becomes the head of the fork database, or
nothing changes. -/
lemma applyBlock_spec (hmode : mode = .irreversible) (hb : Held s.forkDb.index b)
    (hprev : b.header.previous = cur.id) (fault : Option ChainException) :
    (fault ≠ none ∧ ∃ e, (applyBlock b fault).exec s = (.error e, s)) ∨
      ∃ s' c, (applyBlock b fault).exec s = (.ok (), s') ∧ ForkReady mode s' root c ∧
        s'.blog = s.blog ∧ s'.slog = s.slog ∧ s'.committed = s.committed ∧
        SameBlocks s.forkDb.index s'.forkDb.index ∧ c ∈ s'.forkDb.index ∧
        c.toBlockHeaderState = b.toBlockHeaderState ∧ c.validated = true := by
  have hcont := h.continues hb hprev
  obtain ⟨hchain, hothers⟩ := h.ready.applied hmode
  have hhead : s.head.id = b.header.previous := (hchain.trans (h.current hmode)).trans hprev.symm
  unfold applyBlock
  rw [exec_act, if_neg (not_not_intro hhead)]
  cases fault with
  | some e => exact .inl ⟨some_ne_none e, e, rfl⟩
  | none =>
    right
    have hnum : b.blockNum = fhead.blockNum + 1 := by
      rw [blockNum_eq_of_id (h.current hmode)]
      exact hcont.1
    have hval : b.validated = false := by
      obtain ⟨b', hb', heq, hv⟩ := hb
      have hb'num : b'.blockNum = b.blockNum := congrArg (fun x => x.blockNum) heq
      rw [← Bool.not_eq_true]
      intro hbv
      rcases hothers b' hb' (hv hbv) with hid | hlt
      · have := blockNum_eq_of_id hid
        omega
      · omega
    have hpref : firstPreferred b.toBlockHeaderState fhead.toBlockHeaderState := by
      rw [h.head_eq_of_id (h.current hmode)]
      exact firstPreferred_of_continues hcont
    obtain ⟨c, hm, hc, hcb, hcv⟩ :=
      markValid_of_firstPreferred h.ready.tree h.ready.head_eq hb hval hpref
    refine ⟨{ s with
      forkDb := { s.forkDb with index := s.forkDb.index.setValid b.id, head := some c }
      head := b }, c, ?_, ?_, rfl, rfl, rfl, sameBlocks_setValid _ _, hc, hcb, hcv⟩
    · simp only [hm]
    · exact h.setValid hmode hcont hm (congrArg (fun x => x.id) hcb)

/-- In the other read modes, a block below the head is validated. -/
lemma Reached.validated_of_above (hmode : mode ≠ .irreversible) (hb : Held s.forkDb.index b)
    (habove : AtOrAbove s.forkDb.index b fhead) :
    ∃ c ∈ s.forkDb.index, c.toBlockHeaderState = b.toBlockHeaderState ∧ c.validated = true := by
  obtain ⟨b', hb', heq, -⟩ := hb
  have hroot := h.ready.tree.linked.root_not_mem
  have habove' := habove.congr heq
  have hbelow := (h.ready.tree.linked.descends b' hb').above
  -- the head is not the root, which has a smaller number
  have hne : fhead ≠ root := by
    rintro rfl
    rcases habove' with hsame | hdesc
    · have : fhead.blockNum = b'.blockNum := congrArg (fun x => x.blockNum) hsame
      omega
    · have := hdesc.above
      omega
  obtain ⟨hmem, hval⟩ := h.ready.tree.head_mem.resolve_left hne
  refine ⟨b', hb', heq, ?_⟩
  rcases habove' with hsame | hdesc
  · have hid : fhead.id = b'.id := congrArg (fun x => x.id) hsame
    rwa [← eq_of_key_eq hmem hb' hid]
  · exact (h.ready.validUp hmode).of_descends hroot hb' hmem hval hdesc

/-- **One round of the loop**: the next block is logged, or the loop ends where it is. -/
theorem logBlock_spec (hpath : Path s.forkDb.index cur (b :: branch) last)
    (hahead : mode ≠ .irreversible → AtOrAbove s.forkDb.index last fhead)
    (hf : fault.Harmless mode s.slog.isSome) :
    (∃ s' fhead', (logBlock mode b fault).exec s = (.ok (), s') ∧
        Reached mode past start root s' b fhead' ∧ Path s'.forkDb.index b branch last ∧
        (mode ≠ .irreversible → AtOrAbove s'.forkDb.index last fhead') ∧
        s'.slog.isSome = s.slog.isSome ∧ s'.blog.blocks = s.blog.blocks ++ [b]) ∨
      fault ≠ .none ∧ ∃ e, (logBlock mode b fault).exec s = (.error e, s) := by
  cases hpath with
  | cons hb hprev hnum hpath =>
    unfold logBlock
    by_cases hmode : mode = .irreversible
    · rw [if_pos hmode]
      rcases applyBlock_spec h hmode hb hprev fault.apply with
        ⟨hne, e, he⟩ | ⟨s1, c, hs1, hready, hblog, hslog, hcommitted, hsame, hc, hcb, hcv⟩
      · refine .inr ⟨?_, e, exec_bind_of_error he⟩
        rintro rfl
        exact hne rfl
      · have haligned : Aligned past start s1 cur := h.aligned.of_id rfl hblog hslog hcommitted
        rw [exec_bind_of_ok hs1]
        rw [← hslog] at hf
        rcases record_spec haligned hnum hf with hs2 | ⟨hne, -⟩
        · refine .inl ⟨_, c, hs2, ⟨{ hready with }, fun _ => congrArg (fun x => x.id) hcb,
            haligned.appended hprev hnum, .inl hcb, .inr ⟨c, hc, hcb, hcv⟩⟩, hpath.congr hsame,
            fun hne => absurd hmode hne, isSome_map.trans (by rw [hslog]), ?_⟩
          exact congrArg (fun log => log.blocks ++ [b]) hblog
        · exact absurd hmode hne
    · rw [if_neg hmode]
      have habove := hpath.atOrAbove (hahead hmode)
      rcases record_spec h.aligned hnum hf with hs2 | ⟨-, herror⟩
      · exact .inl ⟨_, fhead, hs2, ⟨{ h.ready with }, fun heq => absurd heq hmode,
          h.aligned.appended hprev hnum, habove, .inr (h.validated_of_above hmode hb habove)⟩,
          hpath, hahead, isSome_map, rfl⟩
      · exact .inr herror

/-- The whole loop, by induction on the branch: it has logged the first of the blocks, all of them
if nothing throws, and the root can be advanced to the block that `root_id` names. -/
lemma logBlocks_spec (hpath : Path s.forkDb.index cur branch last)
    (hahead : mode ≠ .irreversible → AtOrAbove s.forkDb.index last fhead)
    (hf : ∀ b ∈ branch, (faults b.id).Harmless mode s.slog.isSome) :
    ∃ result s' cur' fhead' k, logBlocks mode faults branch cur.id s = (result, cur'.id, s') ∧
      Reached mode past start root s' cur' fhead' ∧
      s'.blog.blocks = s.blog.blocks ++ branch.take k ∧
      ((∀ b ∈ branch, faults b.id = .none) → result = .ok () ∧ branch.length ≤ k) := by
  induction branch generalizing s cur fhead with
  | nil => exact ⟨_, s, cur, fhead, 0, rfl, h, by simp, fun _ => ⟨rfl, le_rfl⟩⟩
  | cons b branch ih =>
    rw [logBlocks]
    rcases logBlock_spec h hpath hahead (hf b mem_cons_self) with
      ⟨s1, fhead1, hs1, h1, hpath1, hahead1, hslog, hblocks⟩ | ⟨hne, e, he⟩
    · rw [hs1]
      obtain ⟨result, s', cur', fhead', k, hloop, h', hblocks', hall⟩ := ih h1 hpath1 hahead1
        fun x hx => hslog ▸ hf x (mem_cons_of_mem _ hx)
      refine ⟨result, s', cur', fhead', k + 1, hloop, h', ?_, fun hnone => ?_⟩
      · rw [hblocks', hblocks, append_assoc, take_succ_cons, singleton_append]
      · obtain ⟨hok, hle⟩ := hall fun x hx => hnone x (mem_cons_of_mem _ hx)
        exact ⟨hok, Nat.succ_le_succ hle⟩
    · rw [he]
      exact ⟨_, s, cur, fhead, 0, rfl, h, by simp,
        fun hnone => absurd (hnone b mem_cons_self) hne⟩

/-! ### A call -/

/-- The stores between two operations: the logs and the database end with the root of the fork
database, which is its head in the irreversible read mode. -/
def Consistent (mode : ReadMode) (past : List BlockState) (start : BlockState) (s : ChainStores)
    (root : BlockState) : Prop :=
  (∃ fhead, ForkReady mode s root fhead ∧ (mode = .irreversible → fhead.id = root.id)) ∧
    Aligned past start s root

/-- The root is advanced to the block that the loop has come to. -/
lemma Reached.advanceTo :
    ∃ s' root', s.advanceTo root cur.id = .ok s' ∧ s'.blog = s.blog ∧
      Consistent mode past start s' root' := by
  unfold ChainStores.advanceTo
  by_cases hid : cur.id = root.id
  · rw [if_neg (not_not_intro hid)]
    exact ⟨s, root, rfl, rfl, ⟨fhead, h.ready, fun hmode => (h.current hmode).trans hid⟩,
      h.aligned.of_id hid.symm rfl rfl rfl⟩
  · rw [if_pos hid]
    obtain ⟨c, hc, hcur, hval⟩ := h.valid.resolve_left fun heq => hid (congrArg (fun x => x.id) heq)
    have hcid : c.id = cur.id := congrArg (fun x => x.id) hcur
    have hfind : s.forkDb.index.find? cur.id = some c := Table.find?_eq_some.mpr ⟨hc, hcid⟩
    obtain ⟨ids, db', hok, hroot', hhead', hids, hclosed, hmem⟩ := advanceRoot_ok h.ready.root_eq
      h.ready.head_eq h.ready.tree.linked hfind hval (h.above.congr hcur)
    have hinv := advanceRoot_inv
      (.inr ⟨root, fhead, h.ready.root_eq, h.ready.head_eq, h.ready.tree⟩) hok
    obtain ⟨fhead', hfhead', htree⟩ := hinv.of_root hroot'
    obtain rfl := some.inj (hhead'.symm.trans hfhead')
    rw [← hcid] at hclosed hmem
    rw [hok]
    refine ⟨{ s with forkDb := db' }, c, rfl, rfl, ⟨fhead, ⟨hroot', hhead', htree, ?_, ?_⟩,
      fun hmode => (h.current hmode).trans hcid.symm⟩, h.aligned.of_id hcid rfl rfl rfl⟩
    · intro hmode
      exact (h.ready.validUp hmode).of_advance hids hclosed hmem
    · intro hmode
      obtain ⟨hchain, hothers⟩ := h.ready.applied hmode
      refine ⟨hchain, fun v hv => hothers v ?_⟩
      exact (Table.mem_erase.mp ((hmem v).mp hv).1).1

end

lemma Aligned.libNum_eq (h : Aligned past start s root) : s.libNum = root.blockNum := by
  unfold libNum headId
  rcases h.blog.head_cases with ⟨hnone, hfirst⟩ | ⟨g, hg, hnum⟩
  · have hlt := root.blockNum_lt
    rw [hnone, hfirst]
    show subU32 (root.blockNum + 1) 1 = root.blockNum
    unfold subU32 u32
    omega
  · rw [hg]
    show numFromId g.id = root.blockNum
    rw [g.numFromId_id, hnum]

lemma Aligned.checkRoot_eq (h : Aligned past start s root) : s.checkRoot root = .ok () := by
  have hlib := h.libNum_eq
  unfold checkRoot headId
  cases hhead : s.blog.head with
  | none => exact sysAssert_eq_ok.mpr hlib.symm
  | some g => exact sysAssert_eq_ok.mpr (h.blog_head g hhead).symm

/-- The irreversible blocks on the branch of `h`: those of numbers up to the given one. -/
def Irreversible (index : ForkIndex) (h : BlockState) (num : ℕ) (b : BlockState) : Prop :=
  b ∈ index ∧ (b = h ∨ h ∈ index ∧ Reaches index b.id h) ∧ b.blockNum ≤ num

/-- `fetch_branch` finds them all. -/
lemma mem_branchFrom {h : BlockState} {num fuel : ℕ} (hroot : index.find? root.id = none)
    (hh : h ∈ index) (hdesc : Descends index root h) (hfuel : h.blockNum < root.blockNum + fuel) :
    b ∈ branchFrom index num fuel h.id ↔ Irreversible index h num b := by
  have hne : ∀ p ∈ index, p.id ≠ root.id := Table.find?_eq_none.mp hroot
  unfold Irreversible
  induction hdesc generalizing fuel with
  | @child h hprev hnum =>
    obtain ⟨fuel, rfl⟩ : ∃ k, fuel = k + 1 := Nat.exists_eq_succ_of_ne_zero (by omega)
    have hend : branchFrom index num fuel h.header.previous = [] := by
      cases fuel with
      | zero => rfl
      | succ fuel => rw [branchFrom, hprev, hroot]
    -- nothing of the index is below the block
    have hbelow : ∀ b ∈ index, ¬Reaches index b.id h := by
      intro b hb hreach
      cases hreach with
      | root hprev' => exact hne b hb (hprev'.symm.trans hprev)
      | step hp hprev' _ => exact hne _ hp (hprev'.symm.trans hprev)
    rw [branchFrom, Table.find?_eq_some.mpr ⟨hh, rfl⟩]
    simp only [hend]
    grind
  | @step p h hp hprev hnum hdesc ih =>
    have habove := hdesc.above
    obtain ⟨fuel, rfl⟩ : ∃ k, fuel = k + 1 := Nat.exists_eq_succ_of_ne_zero (by omega)
    have ih := @ih fuel hp (by omega)
    have hreach : ∀ b ∈ index, Reaches index b.id h ↔ b = p ∨ Reaches index b.id p := by
      intro b hb
      constructor
      · intro hreach
        cases hreach with
        | root hprev' => exact .inl (eq_of_key_eq hb hp (hprev'.symm.trans hprev))
        | step hq hprev' hreach =>
          exact .inr (eq_of_key_eq hq hp (hprev'.symm.trans hprev) ▸ hreach)
      · rintro (rfl | hreach)
        · exact .root hprev
        · exact .step hp hprev hreach
    rw [branchFrom, Table.find?_eq_some.mpr ⟨hh, rfl⟩]
    simp only [hprev]
    grind

lemma fetchBranch_spec {h : BlockState} (hi : Linked db.index root fhead)
    (hh : h = root ∨ h ∈ db.index) (num : ℕ) :
    ∃ last, Path db.index root (db.fetchBranch h.id num).reverse last ∧
      AtOrAbove db.index last h ∧
      ∀ b, b ∈ db.fetchBranch h.id num ↔ Irreversible db.index h num b := by
  unfold fetchBranch
  rcases hh with rfl | hmem
  · rw [branchFrom, hi.root_not_mem]
    refine ⟨h, Path.nil h, .inl rfl, fun b => ⟨fun hb => absurd hb not_mem_nil, fun hb => ?_⟩⟩
    have hout := Table.find?_eq_none.mp hi.root_not_mem
    rcases hb.2.1 with rfl | ⟨hh, -⟩
    · exact absurd rfl (hout b hb.1)
    · exact absurd rfl (hout h hh)
  · have hfuel : h.blockNum < root.blockNum + (numFromId h.id + 1) := by
      rw [h.numFromId_id]
      omega
    obtain ⟨l, last, hl, hpath, habove, -⟩ :=
      @branchFrom_spec _ _ _ _ num hi.root_not_mem hmem (hi.descends h hmem) hfuel
    refine ⟨last, ?_, habove, fun b =>
      mem_branchFrom hi.root_not_mem hmem (hi.descends h hmem) hfuel⟩
    rwa [hl, reverse_reverse]

lemma pendingHead_mem (hhead : db.head = some fhead) :
    ∃ p, db.pendingHead = some p ∧ (p = fhead ∨ p ∈ db.index) := by
  unfold pendingHead
  rw [hhead]
  cases hfind : db.index.byLibBlockNum.find? fun b => !b.validated with
  | none => exact ⟨fhead, rfl, .inl rfl⟩
  | some b =>
    have hmem : b ∈ db.index := (find?_byLibBlockNum hfind).1
    by_cases hpref : firstPreferred b.toBlockHeaderState fhead.toBlockHeaderState
    · exact ⟨b, if_pos hpref, .inr hmem⟩
    · exact ⟨fhead, if_neg hpref, .inl rfl⟩

/-- **What comes before the loop does not fail**, and finds all blocks that have become
irreversible, on a path that starts at the root. -/
theorem branchToLog_spec (hready : ForkReady mode s root fhead)
    (haligned : Aligned past start s root) :
    ∃ forkHead branch last, s.forkDbHead mode = some forkHead ∧
      s.branchToLog mode = .ok (root, branch) ∧ Path s.forkDb.index root branch last ∧
      (mode ≠ .irreversible → AtOrAbove s.forkDb.index last fhead) ∧
      ∀ b, b ∈ branch ↔
        Irreversible s.forkDb.index forkHead forkHead.dposIrreversibleBlocknum b := by
  have hlinked := hready.tree.linked
  obtain ⟨forkHead, hforkHead, hmem, hsame⟩ : ∃ forkHead, s.forkDbHead mode = some forkHead ∧
      (forkHead = root ∨ forkHead ∈ s.forkDb.index) ∧
      (mode ≠ .irreversible → forkHead = fhead) := by
    unfold forkDbHead
    split_ifs with hmode
    · obtain ⟨p, hp, hcases⟩ := pendingHead_mem hready.head_eq
      refine ⟨p, hp, ?_, fun hne => absurd hmode hne⟩
      rcases hcases with rfl | hmem
      · exact hlinked.head_known
      · exact .inr hmem
    · exact ⟨fhead, hready.head_eq, hlinked.head_known, fun _ => rfl⟩
  unfold branchToLog
  rw [hready.root_eq]
  simp only [haligned.checkRoot_eq, hforkHead, Result.ok_bind]
  split_ifs with hlib
  · refine ⟨forkHead, [], root, rfl, rfl, Path.nil root, fun _ => ?_,
      fun b => ⟨nofun, fun hb => ?_⟩⟩
    · rcases hlinked.head_known with rfl | hm
      · exact .inl rfl
      · exact .inr (hlinked.descends fhead hm)
    · -- every block is above the root
      have habove := (hlinked.descends b hb.1).above
      have hle := hb.2.2
      rw [haligned.libNum_eq] at hlib
      omega
  · obtain ⟨last, hpath, habove, hbranch⟩ :=
      fetchBranch_spec hlinked hmem forkHead.dposIrreversibleBlocknum
    refine ⟨forkHead, _, last, rfl, rfl, hpath, fun hne => ?_, fun b => ?_⟩
    · rwa [← hsame hne]
    · rw [mem_reverse, hbranch]

lemma Path.held {l : List BlockState} (h : Path index a l c) : ∀ b ∈ l, Held index b := by
  induction h with
  | nil a => simp
  | cons hb _ _ _ ih =>
    intro x hx
    rcases mem_cons.mp hx with rfl | hx
    · exact hb
    · exact ih x hx

/-- **A call leaves the stores consistent, whether it returns or throws**, and has logged the first
of the blocks that are irreversible, all of them if nothing throws. -/
theorem logIrreversible_consistent (h : Consistent mode past start s root)
    (hf : ∀ b ∈ s.forkDb.index, (faults b.id).Harmless mode s.slog.isSome) :
    (∃ root', Consistent mode past start (s.logIrreversible mode faults).2 root') ∧
      ∀ branch, s.branchToLog mode = .ok (root, branch) →
        ∃ k, (s.logIrreversible mode faults).2.blog.blocks = s.blog.blocks ++ branch.take k ∧
          ((∀ b ∈ branch, faults b.id = .none) →
            (s.logIrreversible mode faults).1 = .ok () ∧ branch.length ≤ k) := by
  obtain ⟨⟨fhead, hready, hcurrent⟩, haligned⟩ := h
  obtain ⟨forkHead, branch, last, -, hbranch, hpath, hahead, -⟩ :=
    branchToLog_spec hready haligned
  have hreached : Reached mode past start root s root fhead := by
    refine ⟨hready, hcurrent, haligned, ?_, .inl rfl⟩
    rcases hready.tree.linked.head_known with rfl | hm
    · exact .inl rfl
    · exact .inr (hready.tree.linked.descends fhead hm)
  have hfaults : ∀ b ∈ branch, (faults b.id).Harmless mode s.slog.isSome := by
    intro b hb
    obtain ⟨b', hb', hsame⟩ := Path.held hpath b hb
    rw [← hsame.id_eq]
    exact hf b' hb'
  obtain ⟨result, s1, cur, fhead1, k, hloop, h1, hblocks, hall⟩ :=
    logBlocks_spec hreached hpath hahead hfaults
  obtain ⟨s2, root', hadv, hblog, h2⟩ := h1.advanceTo
  have hcall : s.logIrreversible mode faults = (result, s2) := by
    unfold logIrreversible
    simp only [hbranch, hloop, hadv]
  rw [hcall]
  refine ⟨⟨root', h2⟩, fun branch' hbranch' => ⟨k, ?_, ?_⟩⟩
  all_goals obtain rfl : branch' = branch := by simpa [hbranch] using hbranch'.symm
  · rw [hblog, hblocks]
  · exact hall

end ChainStores

end Sysio
