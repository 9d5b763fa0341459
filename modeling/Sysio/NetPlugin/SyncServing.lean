import Mathlib.Algebra.Order.Field.Rat
import Mathlib.Tactic.Linarith
import Sysio.Types

/-!
# Serving the blocks that a peer asks for

A connection remembers one range of blocks that its peer has asked for, and `enqueue_sync_block`
sends the next one of them.  If a range is served when the next request comes, a
`sync_request_message` only moves its end, and a request for a branch also moves the position.  So
blocks can be lost (`exists_not_served`); they are all sent if no request asks for blocks below the
range that is served, and no branch begins above the position (`served_of_run`).

The blocks of a frame are sent at a limited rate.  The rate is computed in bytes per microsecond and
scaled to a tenth of a second, so the limit that is kept in every run is ten times the configured
one (`rate_of_run`).
-/

namespace Sysio

open List

/-- `peer_sync_state`. -/
structure PeerSyncState where
  startBlock : ℕ
  endBlock : ℕ
  last : ℕ
  deriving DecidableEq

/-- What a connection keeps about the blocks that it serves, with the numbers of those it has sent.
Times are in nanoseconds. -/
structure SyncServer where
  peerRequested : Option PeerSyncState := none
  /-- The start of the frame, or 0 outside of one. -/
  blockSyncSendStart : ℕ := 0
  blockSyncFrameBytesSent : ℕ := 0
  blockSyncTotalBytesSent : ℕ := 0
  blockSyncThrottling : Bool := false
  /-- Whether `no_retry` is `benign_other`. -/
  noRetry : Bool := false
  sent : List ℕ := []

/-- What a call finds: the time, the sizes of the blocks that can be fetched, the limit in bytes per
second, and `peer_syncing_from_us`. -/
structure SyncCall where
  now : ℕ
  blockSize : ℕ → Option ℕ
  rateLimit : ℕ
  peerSyncingFromUs : Bool

namespace SyncServer

/-- `current_rate_sec >= block_sync_rate_limit`, with exact arithmetic.  The rate over no time is
infinite. -/
def OverLimit (rateLimit bytes elapsedUs : ℕ) : Prop :=
  elapsedUs = 0 ∨ (rateLimit : ℚ) ≤ (bytes : ℚ) / elapsedUs * 100000

lemma overLimit_iff {rateLimit bytes elapsedUs : ℕ} : OverLimit rateLimit bytes elapsedUs ↔
    rateLimit * elapsedUs ≤ bytes * 100000 := by
  unfold OverLimit
  rcases Nat.eq_zero_or_pos elapsedUs with rfl | hpos
  · simp
  · rw [div_mul_eq_mul_div, le_div_iff₀ (by exact_mod_cast hpos), or_iff_right hpos.ne']
    exact_mod_cast Iff.rfl

instance (rateLimit bytes elapsedUs : ℕ) : Decidable (OverLimit rateLimit bytes elapsedUs) :=
  decidable_of_iff _ overLimit_iff.symm

/-- The start of a frame. -/
def startFrame (c : SyncServer) (now : ℕ) : SyncServer :=
  if c.blockSyncSendStart = 0 then
    { c with blockSyncSendStart := now, blockSyncFrameBytesSent := 0 }
  else c

/-- The block is not sent this time. -/
def Throttled (c : SyncServer) (call : SyncCall) : Prop :=
  0 < call.rateLimit ∧ 0 < c.blockSyncFrameBytesSent ∧ call.peerSyncingFromUs = true ∧
    OverLimit call.rateLimit c.blockSyncFrameBytesSent ((call.now - c.blockSyncSendStart) / 1000)

instance (c : SyncServer) (call : SyncCall) : Decidable (c.Throttled call) :=
  inferInstanceAs (Decidable (_ ∧ _))

def enqueueSyncBlock (c : SyncServer) (call : SyncCall) : SyncServer × Bool :=
  match c.peerRequested with
  | none => (c, false)
  | some r =>
    let num := u32 (r.last + 1)
    match call.blockSize num with
    | some size =>
      let c := c.startFrame call.now
      if c.Throttled call then ({ c with blockSyncThrottling := true }, false)
      else
        let c := { c with
          blockSyncThrottling := false
          blockSyncTotalBytesSent := c.blockSyncTotalBytesSent + size
          blockSyncFrameBytesSent := c.blockSyncFrameBytesSent + size
          sent := c.sent ++ [num] }
        if num = r.endBlock then
          ({ c with peerRequested := none, blockSyncSendStart := 0, blockSyncFrameBytesSent := 0 },
            true)
        else ({ c with peerRequested := some { r with last := num } }, true)
    | none =>
      ({ c with peerRequested := none, blockSyncSendStart := 0, blockSyncFrameBytesSent := 0,
                noRetry := true }, true)

/-- `handle_message` for a `sync_request_message`. -/
def handleSyncRequest (c : SyncServer) (startBlock endBlock : ℕ) (call : SyncCall) : SyncServer :=
  if endBlock = 0 then { c with peerRequested := none }
  else
    let r : PeerSyncState := match c.peerRequested with
      | some r => { r with endBlock := max endBlock r.endBlock }
      | none => ⟨startBlock, endBlock, u32 (startBlock + (2 ^ 32 - 1))⟩
    ({ c with peerRequested := some r }.enqueueSyncBlock call).1

def blkSendBranch (c : SyncServer) (msgHeadNum libNum headNum : ℕ) (call : SyncCall) : SyncServer :=
  let r : PeerSyncState := match c.peerRequested with
    | none =>
      let last := if msgHeadNum ≠ 0 then msgHeadNum else libNum
      ⟨u32 (last + 1), headNum, last⟩
    | some r =>
      let last := if msgHeadNum ≠ 0 then msgHeadNum else min r.last libNum
      ⟨u32 (last + 1), max r.endBlock headNum, last⟩
  if r.startBlock ≤ r.endBlock then ({ c with peerRequested := some r }.enqueueSyncBlock call).1
  else { c with peerRequested := none }

inductive Request
  | syncRequest (startBlock endBlock : ℕ)
  | sendBranch (msgHeadNum libNum headNum : ℕ)

def handle (c : SyncServer) (call : SyncCall) : Request → SyncServer
  | .syncRequest startBlock endBlock => c.handleSyncRequest startBlock endBlock call
  | .sendBranch msgHeadNum libNum headNum => c.blkSendBranch msgHeadNum libNum headNum call

/-- A request of the peer, or else the next call of `enqueue_sync_block`. -/
def step (c : SyncServer) (call : SyncCall) : Option Request → SyncServer
  | some q => c.handle call q
  | none => (c.enqueueSyncBlock call).1

variable {c c' : SyncServer} {call : SyncCall} {q : Option Request} {head rateLimit : ℕ}

/-! ### The rate limit -/

/-- **What a step does to the frame**: it sends nothing, or one block if that is not throttled, and
goes on with the frame or ends it. -/
structure FrameStep (call : SyncCall) (c c' : SyncServer) (sizes : List ℕ) : Prop where
  sent : ∃ nums, c'.sent = c.sent ++ nums ∧ nums.map call.blockSize = sizes.map some
  free : sizes ≠ [] → ¬ (c.startFrame call.now).Throttled call
  goesOn : c'.blockSyncSendStart = 0 ∨
    sizes = [] ∧ c'.blockSyncSendStart = c.blockSyncSendStart ∧
      c'.blockSyncFrameBytesSent = c.blockSyncFrameBytesSent ∨
    ∃ size, sizes = [size] ∧ c'.blockSyncSendStart = (c.startFrame call.now).blockSyncSendStart ∧
      c'.blockSyncFrameBytesSent = (c.startFrame call.now).blockSyncFrameBytesSent + size

lemma startFrame_of_throttled (h : (c.startFrame call.now).Throttled call) :
    c.startFrame call.now = c := by
  unfold startFrame at h ⊢
  split_ifs at h ⊢
  · exact absurd h.2.1 (lt_irrefl 0)
  · rfl

lemma sent_startFrame (now : ℕ) : (c.startFrame now).sent = c.sent := by
  unfold startFrame
  split_ifs <;> rfl

lemma frameStep_enqueueSyncBlock (c : SyncServer) (call : SyncCall) :
    ∃ sizes, FrameStep call c (c.enqueueSyncBlock call).1 sizes := by
  rcases hr : c.peerRequested with _ | r
  · simp only [enqueueSyncBlock, hr]
    exact ⟨[], ⟨[], by simp, rfl⟩, nofun, .inr (.inl ⟨rfl, rfl, rfl⟩)⟩
  rcases hsize : call.blockSize (u32 (r.last + 1)) with _ | size
  · simp only [enqueueSyncBlock, hr, hsize]
    exact ⟨[], ⟨[], by simp, rfl⟩, nofun, .inl rfl⟩
  simp only [enqueueSyncBlock, hr, hsize]
  by_cases hthrottled : (c.startFrame call.now).Throttled call
  · rw [if_pos hthrottled, startFrame_of_throttled hthrottled]
    exact ⟨[], ⟨[], by simp, rfl⟩, nofun, .inr (.inl ⟨rfl, rfl, rfl⟩)⟩
  · rw [if_neg hthrottled]
    refine ⟨[size], ⟨[u32 (r.last + 1)], ?_, by simp [hsize]⟩, fun _ => hthrottled, ?_⟩
    · split_ifs <;> simp [sent_startFrame]
    · split_ifs
      · exact .inl rfl
      · exact .inr (.inr ⟨size, rfl, rfl, rfl⟩)

/-- A request changes the range first, which is no part of the frame. -/
lemma frameStep_step (c : SyncServer) (call : SyncCall) (q : Option Request) :
    ∃ sizes, FrameStep call c (c.step call q) sizes := by
  have hidle (p : Option PeerSyncState) :
      ∃ sizes, FrameStep call c { c with peerRequested := p } sizes :=
    ⟨[], ⟨[], by simp, rfl⟩, nofun, .inr (.inl ⟨rfl, rfl, rfl⟩)⟩
  have henqueue (p : Option PeerSyncState) :
      ∃ sizes, FrameStep call c ({ c with peerRequested := p }.enqueueSyncBlock call).1 sizes := by
    obtain ⟨sizes, hsent, hfree, hgoesOn⟩ :=
      frameStep_enqueueSyncBlock { c with peerRequested := p } call
    have hstart : { c with peerRequested := p }.startFrame call.now =
        { c.startFrame call.now with peerRequested := p } := by
      unfold startFrame
      split_ifs <;> rfl
    rw [hstart] at hfree hgoesOn
    exact ⟨sizes, hsent, hfree, hgoesOn⟩
  rcases q with _ | ⟨startBlock, endBlock⟩ | ⟨msgHeadNum, libNum, headNum⟩
  · exact henqueue c.peerRequested
  · simp only [step, handle, handleSyncRequest]
    split_ifs
    · exact hidle _
    · exact henqueue _
  · simp only [step, handle]
    unfold blkSendBranch
    extract_lets r
    split_ifs
    · exact henqueue _
    · exact hidle _

/-- The connection after any requests and calls under one limit while the peer syncs, with the
blocks of the present frame: when they were sent, and their sizes. -/
inductive Sends (rateLimit : ℕ) : SyncServer → List (ℕ × ℕ) → Prop
  | nil : Sends rateLimit {} []
  | step {c frame call q nums} {sizes : List ℕ} : Sends rateLimit c frame →
      call.rateLimit = rateLimit → call.peerSyncingFromUs = true → 0 < call.now →
      (c.step call q).sent = c.sent ++ nums → nums.map call.blockSize = sizes.map some →
      Sends rateLimit (c.step call q) (if (c.step call q).blockSyncSendStart = 0 then []
        else frame ++ sizes.map (call.now, ·))

/-- **The counters are those of the frame**, which starts with its first block. -/
structure Counts (c : SyncServer) (frame : List (ℕ × ℕ)) : Prop where
  start : frame.head?.map Prod.fst =
    if c.blockSyncSendStart = 0 then none else some c.blockSyncSendStart
  bytes : frame ≠ [] → c.blockSyncFrameBytesSent = (frame.map Prod.snd).sum

variable {frame : List (ℕ × ℕ)}

lemma Counts.eq_nil_iff (h : Counts c frame) : frame = [] ↔ c.blockSyncSendStart = 0 := by
  have hstart := h.start
  rw [← head?_eq_none_iff, ← Option.map_eq_none_iff, hstart]
  split_ifs <;> simp_all

lemma counts_of_run (h : Sends rateLimit c frame) : Counts c frame := by
  induction h with
  | nil => exact ⟨rfl, nofun⟩
  | @step c frame call q nums sizes _ _ _ hnow hsent hsizes ih =>
    obtain ⟨sizes', ⟨nums', hsent', hsizes'⟩, -, hgoesOn⟩ := frameStep_step c call q
    -- the sizes are those of the blocks that were sent
    obtain rfl := append_cancel_left (hsent.symm.trans hsent')
    obtain rfl := (List.map_inj_right fun _ _ => Option.some.inj).mp (hsizes.symm.trans hsizes')
    split_ifs with hzero
    · exact ⟨by simp [hzero], nofun⟩
    rcases hgoesOn with hzero' | ⟨rfl, hstart, hbytes⟩ | ⟨size, rfl, hstart, hbytes⟩
    · exact absurd hzero' hzero
    · rw [map_nil, append_nil]
      exact ⟨by rw [hstart]; exact ih.start, fun hne => by rw [hbytes]; exact ih.bytes hne⟩
    · unfold startFrame at hstart hbytes
      by_cases hfirst : c.blockSyncSendStart = 0
      · rw [if_pos hfirst] at hstart hbytes
        rw [ih.eq_nil_iff.mpr hfirst]
        exact ⟨by simp [hstart, hnow.ne'], fun _ => by simp [hbytes]⟩
      · rw [if_neg hfirst] at hstart hbytes
        have hne : frame ≠ [] := fun hnil => hfirst (ih.eq_nil_iff.mp hnil)
        refine ⟨?_, fun _ => by simp [hbytes, ih.bytes hne]⟩
        rw [hstart, ← ih.start, head?_append, Option.or_of_isSome]
        exact isSome_head?.mpr hne

/-- **The rate that is kept** in every run is ten times the limit: when a block is sent in a frame,
the blocks of the frame before it have less bytes than ten times what the limit allows for the time
since the first of them. -/
theorem rate_of_run (h : Sends rateLimit c frame) (hlimit : 0 < rateLimit)
    (hrate : call.rateLimit = rateLimit) (hsyncing : call.peerSyncingFromUs = true)
    (hsends : (c.step call q).sent ≠ c.sent) {start size : ℕ}
    (hfirst : frame.head? = some (start, size)) (hlt : start < call.now) :
    ((frame.map Prod.snd).sum : ℚ) < 10 * (rateLimit * ((call.now - start : ℕ) / 10 ^ 9)) := by
  have hcounts := counts_of_run h
  have hne : frame ≠ [] := by
    rintro rfl
    cases hfirst
  have hframe : ¬ c.blockSyncSendStart = 0 := fun hzero => hne (hcounts.eq_nil_iff.mpr hzero)
  have hstart : c.blockSyncSendStart = start := by
    have := hcounts.start
    rw [hfirst, if_neg hframe] at this
    exact (Option.some.inj this).symm
  obtain ⟨sizes, ⟨nums, hsent, hsizes⟩, hfree, -⟩ := frameStep_step c call q
  have hfree : ¬ c.Throttled call := by
    have hsome : sizes ≠ [] := by
      rintro rfl
      rw [map_nil, map_eq_nil_iff] at hsizes
      exact hsends (by rw [hsent, hsizes, append_nil])
    rw [← show c.startFrame call.now = c from if_neg hframe]
    exact hfree hsome
  rw [← hcounts.bytes hne]
  set bytes := c.blockSyncFrameBytesSent
  set elapsed := call.now - start
  have hunder : bytes = 0 ∨ bytes * 100000 < rateLimit * (elapsed / 1000) := by
    by_contra hover
    obtain ⟨hbytes, hover⟩ := not_or.mp hover
    refine hfree ⟨hrate ▸ hlimit, Nat.pos_of_ne_zero hbytes, hsyncing, overLimit_iff.mpr ?_⟩
    rw [hstart, hrate]
    exact not_lt.mp hover
  -- in nanoseconds
  have hscaled : bytes * 10 ^ 8 < rateLimit * elapsed := by
    rcases hunder with hzero | hunder
    · rw [hzero, zero_mul]
      exact Nat.mul_pos hlimit (Nat.sub_pos_of_lt hlt)
    · have hle : elapsed / 1000 * 1000 ≤ elapsed := Nat.div_mul_le_self _ _
      nlinarith
  have hcast : (bytes : ℚ) * 10 ^ 8 < rateLimit * elapsed := by exact_mod_cast hscaled
  linarith

/-- The blocks up to number 9 have 5000 bytes, and 1000 bytes are allowed in a second. -/
def demoCall (now : ℕ) : SyncCall :=
  ⟨now, fun n => if 1 ≤ n ∧ n ≤ 9 then some 5000 else none, 1000, true⟩

/-- The second block is sent half a second after the first, which has 5000 bytes. -/
theorem rate_of_run_demo :
    let c : SyncServer := ({} : SyncServer).step (demoCall 1) (some (.syncRequest 1 9))
    (c.step (demoCall (6 * 10 ^ 8)) none).sent = [1, 2] ∧
      (5000 : ℚ) < 10 * (1000 * ((6 * 10 ^ 8 - 1 : ℕ) / 10 ^ 9)) := by
  intro c
  have hrun : Sends 1000 c [(1, 5000)] :=
    @Sends.step _ _ _ (demoCall 1) (some (.syncRequest 1 9)) [1] [5000] .nil
      rfl rfl (by decide) (by decide) (by decide)
  have hsends : (c.step (demoCall (6 * 10 ^ 8)) none).sent ≠ c.sent := by decide
  have hrate := rate_of_run hrun (by decide) rfl rfl hsends rfl (by decide)
  have hsum : ((([(1, 5000)] : List (ℕ × ℕ)).map Prod.snd).sum : ℚ) = 5000 := by simp
  rw [hsum] at hrate
  exact ⟨by decide, hrate⟩

/-- **The limit is not kept**: a second after the first block of 5000 bytes, the next is sent. -/
theorem exists_over_limit :
    let c : SyncServer := ({} : SyncServer).handleSyncRequest 1 9 (demoCall 1)
    c.blockSyncSendStart = 1 ∧ c.blockSyncFrameBytesSent = 5000 ∧
      (c.enqueueSyncBlock (demoCall (10 ^ 9 + 1))).1.sent = [1, 2] := by
  decide

/-! ### The requests -/

/-- The first and the last block that are asked for. -/
def Request.range : Request → ℕ × ℕ
  | .syncRequest startBlock endBlock => (startBlock, endBlock)
  | .sendBranch msgHeadNum libNum headNum =>
    ((if msgHeadNum ≠ 0 then msgHeadNum else libNum) + 1, headNum)

def Request.blocks (q : Request) : List ℕ := range' q.range.1 (q.range.2 + 1 - q.range.1)

/-- The blocks that are still to be sent. -/
def remaining (c : SyncServer) : List ℕ :=
  match c.peerRequested with
  | none => []
  | some r => range' (r.last + 1) (r.endBlock - r.last)

def serve (c : SyncServer) (calls : List SyncCall) : SyncServer :=
  calls.foldl (fun c call => (c.enqueueSyncBlock call).1) c

/-- The blocks up to the head can be fetched, and there is no rate limit. -/
structure Available (head : ℕ) (call : SyncCall) : Prop where
  isSome_iff : ∀ n, (call.blockSize n).isSome = true ↔ 1 ≤ n ∧ n ≤ head
  unlimited : call.rateLimit = 0

/-- **A request that loses nothing**: for blocks that there are, and, while a range is served, none
below that range, or a branch from a block that has been passed. -/
def Request.Fits (head : ℕ) : Request → Option PeerSyncState → Prop
  | .syncRequest startBlock endBlock, none =>
    1 ≤ startBlock ∧ startBlock ≤ endBlock ∧ endBlock ≤ head
  | .syncRequest startBlock endBlock, some r =>
    0 < endBlock ∧ endBlock ≤ head ∧ (startBlock ≤ endBlock → r.startBlock ≤ startBlock)
  | .sendBranch msgHeadNum libNum headNum, requested =>
    max msgHeadNum libNum + 1 < 2 ^ 32 ∧ headNum ≤ head ∧ ∀ r ∈ requested, msgHeadNum ≤ r.last

/-- The connection after such requests, and calls for blocks in between. -/
inductive Serves (head : ℕ) : List Request → SyncServer → Prop
  | nil : Serves head [] {}
  | request {qs c call} {q : Request} : Serves head qs c → q.Fits head c.peerRequested →
      Available head call → Serves head (qs ++ [q]) (c.handle call q)
  | serve {qs c call} : Serves head qs c → Available head call →
      Serves head qs (c.enqueueSyncBlock call).1

/-- The range is not empty, and there are its blocks. -/
def Pending (head : ℕ) (c : SyncServer) : Prop :=
  ∀ r ∈ c.peerRequested, r.last < r.endBlock ∧ r.endBlock ≤ head

/-- **What holds between the steps**: what is asked for was sent or is to be sent, all of the range
up to the position was sent, and nothing goes beyond the requests. -/
structure Owes (head : ℕ) (qs : List Request) (c : SyncServer) : Prop where
  pending : c.Pending head
  covered : ∀ q ∈ qs, ∀ n ∈ q.blocks, n ∈ c.sent ++ c.remaining
  passed : ∀ r ∈ c.peerRequested, ∀ n, r.startBlock ≤ n → n ≤ r.last → n ∈ c.sent
  bounded : ∀ n ∈ c.sent ++ c.remaining, ∃ q ∈ qs, n ≤ q.range.2

variable {qs : List Request} {r : PeerSyncState} {size n : ℕ}

lemma mem_remaining : n ∈ c.remaining ↔ ∃ r ∈ c.peerRequested, r.last < n ∧ n ≤ r.endBlock := by
  unfold remaining
  split <;> simp_all [mem_range'_1]
  omega

lemma Request.mem_blocks {q : Request} : n ∈ q.blocks ↔ q.range.1 ≤ n ∧ n ≤ q.range.2 := by
  rw [blocks, mem_range'_1]
  omega

lemma sent_enqueueSyncBlock (hr : c.peerRequested = some r)
    (hsize : call.blockSize (u32 (r.last + 1)) = some size) :
    (c.enqueueSyncBlock call).1.sent =
      if (c.startFrame call.now).Throttled call then c.sent else c.sent ++ [u32 (r.last + 1)] := by
  unfold enqueueSyncBlock
  simp only [hr, hsize]
  split_ifs <;> simp [sent_startFrame]

/-- The range after a request still has all that was to be sent, and what is asked for. -/
lemma Owes.request {p : PeerSyncState} {q : Request} (h : Owes head qs c)
    (hpending : p.last < p.endBlock ∧ p.endBlock ≤ head)
    (hpassed : ∀ n, p.startBlock ≤ n → n ≤ p.last → n ∈ c.sent)
    (hkept : ∀ r ∈ c.peerRequested, p.last ≤ r.last ∧ r.endBlock ≤ p.endBlock)
    (hasked : ∀ n ∈ q.blocks, n ∈ c.sent ∨ p.last < n ∧ n ≤ p.endBlock)
    (hend : p.endBlock ≤ q.range.2 ∨ ∃ r ∈ c.peerRequested, p.endBlock ≤ r.endBlock) :
    Owes head (qs ++ [q]) { c with peerRequested := some p } := by
  have hbounded : ∀ n ∈ c.sent ++ c.remaining, ∃ q' ∈ qs ++ [q], n ≤ q'.range.2 := fun n hn =>
    (h.bounded n hn).imp fun _ hq => ⟨mem_append_left _ hq.1, hq.2⟩
  refine ⟨?_, fun q' hq' n hn => ?_, ?_, fun n hn => ?_⟩
  · rintro _ ⟨⟩
    exact hpending
  · rw [mem_append, mem_remaining]
    simp only [Option.mem_def, Option.some.injEq, exists_eq_left']
    rcases mem_append.mp hq' with hq' | hq'
    · rcases mem_append.mp (h.covered q' hq' n hn) with hsent | hrem
      · exact .inl hsent
      · obtain ⟨r, hr, hlast, hle⟩ := mem_remaining.mp hrem
        have := hkept r hr
        exact .inr ⟨by omega, by omega⟩
    · rw [mem_singleton.mp hq'] at hn
      exact hasked n hn
  · rintro _ ⟨⟩
    exact hpassed
  · rcases mem_append.mp hn with hsent | hrem
    · exact hbounded n (mem_append_left _ hsent)
    · obtain ⟨_, ⟨⟩, -, hle⟩ := mem_remaining.mp hrem
      rcases hend with hend | ⟨r, hr, hend⟩
      · exact ⟨q, by simp, hle.trans hend⟩
      · have hlast := h.pending r hr
        obtain ⟨q', hq', hle'⟩ := hbounded r.endBlock
          (mem_append_right _ (mem_remaining.mpr ⟨r, hr, hlast.1, le_rfl⟩))
        exact ⟨q', hq', by omega⟩

/-- Nothing is asked for beyond what is served. -/
lemma Owes.nothing {q : Request} (h : Owes head qs c) (hidle : c.peerRequested = none)
    (hasked : q.blocks = []) : Owes head (qs ++ [q]) { c with peerRequested := none } := by
  refine ⟨nofun, fun q' hq' n hn => ?_, nofun, fun n hn => ?_⟩
  · rcases mem_append.mp hq' with hq' | hq'
    · have := h.covered q' hq' n hn
      rwa [remaining, hidle] at this
    · rw [mem_singleton.mp hq', hasked] at hn
      cases hn
  · have hn : n ∈ c.sent ++ c.remaining := by rwa [remaining, hidle]
    exact (h.bounded n hn).imp fun _ hq => ⟨mem_append_left _ hq.1, hq.2⟩

section

variable (hhead : head < 2 ^ 32)
include hhead

/-- **Every call sends the next block.** -/
theorem enqueueSyncBlock_of_available (ha : Available head call) (hp : c.Pending head) :
    (c.enqueueSyncBlock call).1.sent = c.sent ++ c.remaining.take 1 ∧
      (c.enqueueSyncBlock call).1.remaining = c.remaining.drop 1 ∧
      (c.enqueueSyncBlock call).1.Pending head ∧
      ∀ r' ∈ (c.enqueueSyncBlock call).1.peerRequested, ∃ r ∈ c.peerRequested,
        r'.startBlock = r.startBlock ∧ r'.last = r.last + 1 := by
  cases hr : c.peerRequested with
  | none => simp [enqueueSyncBlock, remaining, Pending, hr]
  | some r =>
    obtain ⟨hlast, hend⟩ := hp r hr
    have hnum : u32 (r.last + 1) = r.last + 1 := u32_of_lt (by omega)
    obtain ⟨size, hsize⟩ := Option.isSome_iff_exists.mp
      ((ha.isSome_iff (r.last + 1)).mpr ⟨by omega, by omega⟩)
    have hfree (c : SyncServer) : ¬ c.Throttled call := fun h => h.1.ne' ha.unlimited
    obtain ⟨k, hk⟩ : ∃ k, r.endBlock = r.last + 1 + k := ⟨r.endBlock - r.last - 1, by omega⟩
    have hremaining : c.remaining = (r.last + 1) :: range' (r.last + 2) k := by
      simp only [remaining, hr, hk, show r.last + 1 + k - r.last = k + 1 by omega, range'_succ]
    refine ⟨?_, ?_⟩
    · rw [sent_enqueueSyncBlock hr (hnum.symm ▸ hsize), if_neg (hfree _), hnum, hremaining]
      rfl
    · rw [hremaining]
      simp only [enqueueSyncBlock, hr, hnum, hsize, if_neg (hfree _), remaining, Pending]
      split_ifs with heq
      · obtain rfl : k = 0 := by omega
        simp
      · simp only [Option.mem_def, Option.some.injEq, forall_eq', drop_one, tail_cons,
          exists_eq_left', and_self, and_true]
        exact ⟨by congr 1; omega, by omega, hend⟩

lemma Owes.enqueueSyncBlock (h : Owes head qs c) (ha : Available head call) :
    Owes head qs (c.enqueueSyncBlock call).1 := by
  obtain ⟨hsent, hremaining, hpending, hrange⟩ := enqueueSyncBlock_of_available hhead ha h.pending
  have happend : (c.enqueueSyncBlock call).1.sent ++ (c.enqueueSyncBlock call).1.remaining =
      c.sent ++ c.remaining := by
    rw [hsent, hremaining, append_assoc, take_append_drop]
  refine ⟨hpending, happend.symm ▸ h.covered, fun r' hr' n hn hlast => ?_, happend.symm ▸ h.bounded⟩
  obtain ⟨r, hr, hstart, hlast'⟩ := hrange r' hr'
  rw [hsent, mem_append]
  rcases (hlast'.symm ▸ hlast).eq_or_lt with rfl | hlt
  · right
    have hr : c.peerRequested = some r := hr
    obtain ⟨k, hk⟩ : ∃ k, r.endBlock - r.last = k + 1 :=
      ⟨r.endBlock - r.last - 1, by have := (h.pending r hr).1; omega⟩
    simp [remaining, hr, hk, range'_succ]
  · exact .inl (h.passed r hr n (hstart ▸ hn) (by omega))

lemma Owes.syncRequest_of_idle {startBlock endBlock : ℕ} (h : Owes head qs c)
    (hr : c.peerRequested = none) (hpos : 1 ≤ startBlock) (hle : startBlock ≤ endBlock)
    (hend : endBlock ≤ head) (ha : Available head call) :
    Owes head (qs ++ [.syncRequest startBlock endBlock])
      (c.handleSyncRequest startBlock endBlock call) := by
  have hlast : u32 (startBlock + (2 ^ 32 - 1)) = startBlock - 1 := by
    unfold u32
    omega
  simp only [handleSyncRequest, hr, hlast, if_neg (show endBlock ≠ 0 by omega)]
  refine Owes.enqueueSyncBlock hhead (h.request ?_ ?_ (by simp [hr]) ?_ (.inl le_rfl)) ha
  · exact ⟨by dsimp only; omega, hend⟩
  · dsimp only
    omega
  · intro n hn
    have := Request.mem_blocks.mp hn
    dsimp only [Request.range] at this ⊢
    omega

/-- What is asked for begins in the range that is served, so it was sent or comes before its end. -/
lemma Owes.syncRequest_of_serving {startBlock endBlock : ℕ} (h : Owes head qs c)
    (hr : c.peerRequested = some r) (hpos : 0 < endBlock) (hend : endBlock ≤ head)
    (hstart : startBlock ≤ endBlock → r.startBlock ≤ startBlock) (ha : Available head call) :
    Owes head (qs ++ [.syncRequest startBlock endBlock])
      (c.handleSyncRequest startBlock endBlock call) := by
  have hpending := h.pending r hr
  simp only [handleSyncRequest, hr, if_neg hpos.ne']
  refine Owes.enqueueSyncBlock hhead (h.request ?_ (h.passed r hr) ?_ ?_ ?_) ha
  · exact ⟨lt_max_of_lt_right hpending.1, max_le hend hpending.2⟩
  · simp [hr]
  · intro n hn
    obtain ⟨hfrom, hto⟩ := Request.mem_blocks.mp hn
    have := hstart (hfrom.trans hto)
    rcases Nat.lt_or_ge r.last n with hlt | hge
    · exact .inr ⟨hlt, hto.trans (le_max_left _ _)⟩
    · exact .inl (h.passed r hr n (this.trans hfrom) hge)
  · rcases max_choice endBlock r.endBlock with heq | heq
    · exact .inl heq.le
    · exact .inr ⟨r, hr, heq.le⟩

lemma Owes.sendBranch_of_idle {msgHeadNum libNum headNum : ℕ} (h : Owes head qs c)
    (hr : c.peerRequested = none) (hlt : max msgHeadNum libNum + 1 < 2 ^ 32)
    (hend : headNum ≤ head) (ha : Available head call) :
    Owes head (qs ++ [.sendBranch msgHeadNum libNum headNum])
      (c.blkSendBranch msgHeadNum libNum headNum call) := by
  unfold blkSendBranch
  set first := if msgHeadNum ≠ 0 then msgHeadNum else libNum with hfirst
  have hblocks : ∀ n ∈ (Request.sendBranch msgHeadNum libNum headNum).blocks,
      first < n ∧ n ≤ headNum := fun n hn => Request.mem_blocks.mp hn
  have hu32 : u32 (first + 1) = first + 1 := u32_of_lt (by grind)
  simp only [hr, hu32]
  split_ifs with hle
  · refine Owes.enqueueSyncBlock hhead
      (h.request ⟨hle, hend⟩ ?_ (by simp [hr]) ?_ (.inl le_rfl)) ha
    · exact fun n hn hlast => absurd (hn.trans hlast) (by simp)
    · exact fun n hn => .inr (hblocks n hn)
  · refine h.nothing hr (eq_nil_iff_forall_not_mem.mpr fun n hn => ?_)
    have := hblocks n hn
    omega

/-- The position moves back, to the first block that is asked for or to its own place. -/
lemma Owes.sendBranch_of_serving {msgHeadNum libNum headNum : ℕ} (h : Owes head qs c)
    (hr : c.peerRequested = some r) (hend : headNum ≤ head) (hpassed : msgHeadNum ≤ r.last)
    (ha : Available head call) :
    Owes head (qs ++ [.sendBranch msgHeadNum libNum headNum])
      (c.blkSendBranch msgHeadNum libNum headNum call) := by
  have hpending := h.pending r hr
  unfold blkSendBranch
  simp only [hr]
  set last := if msgHeadNum ≠ 0 then msgHeadNum else min r.last libNum with hlast
  have hle : last ≤ r.last ∧ last ≤ if msgHeadNum ≠ 0 then msgHeadNum else libNum := by grind
  rw [u32_of_lt (by omega), if_pos (by omega)]
  refine Owes.enqueueSyncBlock hhead (h.request ?_ ?_ ?_ ?_ ?_) ha
  · exact ⟨by dsimp only; omega, max_le hpending.2 hend⟩
  · exact fun n hn hlast => absurd (hn.trans hlast) (by simp)
  · simp [hr, hle.1]
  · intro n hn
    have := Request.mem_blocks.mp hn
    dsimp only [Request.range] at this ⊢
    omega
  · rcases max_choice r.endBlock headNum with heq | heq
    · exact .inr ⟨r, hr, heq.le⟩
    · exact .inl heq.le

lemma Owes.handle {q : Request} (h : Owes head qs c) (hq : q.Fits head c.peerRequested)
    (ha : Available head call) : Owes head (qs ++ [q]) (c.handle call q) := by
  rcases hr : c.peerRequested with _ | r
  · rw [hr] at hq
    cases q with
    | syncRequest =>
      obtain ⟨hpos, hle, hend⟩ := hq
      exact h.syncRequest_of_idle hhead hr hpos hle hend ha
    | sendBranch => exact h.sendBranch_of_idle hhead hr hq.1 hq.2.1 ha
  · rw [hr] at hq
    cases q with
    | syncRequest =>
      obtain ⟨hpos, hend, hstart⟩ := hq
      exact h.syncRequest_of_serving hhead hr hpos hend hstart ha
    | sendBranch =>
      obtain ⟨-, hend, hpassed⟩ := hq
      exact h.sendBranch_of_serving hhead hr hend (hpassed r rfl) ha

lemma owes_of_run (h : Serves head qs c) : Owes head qs c := by
  induction h with
  | nil => exact ⟨nofun, nofun, nofun, nofun⟩
  | request _ hq ha ih => exact ih.handle hhead hq ha
  | serve _ ha ih => exact ih.enqueueSyncBlock hhead ha

/-- **All blocks that are asked for are sent**: the calls send what is left one after the other, in
increasing order; when as many calls have followed as there are blocks left, nothing is served any
more and every block of every request was sent.  No block is above all requests. -/
theorem served_of_run (h : Serves head qs c) (calls : List SyncCall)
    (ha : ∀ call ∈ calls, Available head call) :
    (c.serve calls).sent = c.sent ++ c.remaining.take calls.length ∧
      c.remaining.Pairwise (· < ·) ∧ c.remaining.length ≤ head ∧
      (∀ n ∈ (c.serve calls).sent, ∃ q ∈ qs, n ≤ q.range.2) ∧
      (c.remaining.length ≤ calls.length → (c.serve calls).peerRequested = none ∧
        ∀ q ∈ qs, ∀ n ∈ q.blocks, n ∈ (c.serve calls).sent) := by
  obtain ⟨hsent, hremaining, howes⟩ :
      (c.serve calls).sent = c.sent ++ c.remaining.take calls.length ∧
        (c.serve calls).remaining = c.remaining.drop calls.length ∧
        Owes head qs (c.serve calls) := by
    induction calls generalizing c with
    | nil => exact ⟨by simp [serve], by simp [serve], owes_of_run hhead h⟩
    | cons call calls ih =>
      obtain ⟨hcall, hcalls⟩ := forall_mem_cons.mp ha
      obtain ⟨hsent, hremaining, -⟩ :=
        enqueueSyncBlock_of_available hhead hcall (owes_of_run hhead h).pending
      obtain ⟨hsent', hremaining', howes⟩ := ih (h.serve hcall) hcalls
      refine ⟨?_, ?_, howes⟩
      · change ((c.enqueueSyncBlock call).1.serve calls).sent = _
        rw [hsent', hsent, hremaining, append_assoc, length_cons, Nat.add_comm, take_add]
      · change ((c.enqueueSyncBlock call).1.serve calls).remaining = _
        rw [hremaining', hremaining, drop_drop, length_cons, Nat.add_comm]
  refine ⟨hsent, ?_, ?_, fun n hn => howes.bounded n (mem_append_left _ hn), fun hlen => ?_⟩
  · unfold remaining
    split
    · exact .nil
    · exact pairwise_lt_range' ..
  · cases hr : c.peerRequested with
    | none => simp [remaining, hr]
    | some r =>
      have := (owes_of_run hhead h).pending r hr
      simp only [remaining, hr, length_range']
      omega
  · rw [drop_eq_nil_of_le hlen] at hremaining
    refine ⟨Option.eq_none_iff_forall_not_mem.mpr fun r hr => ?_, fun q hq n hn => ?_⟩
    · have hnext := mem_remaining.mpr ⟨r, hr, (howes.pending r hr).1, le_rfl⟩
      rw [hremaining] at hnext
      cases hnext
    · have hmem := howes.covered q hq n hn
      rwa [hremaining, append_nil] at hmem

end

/-- Without a limit. -/
def demoFree : SyncCall := { demoCall 1 with rateLimit := 0 }

/-- The blocks 2 to 9 are asked for while 1 to 5 are served. -/
theorem served_of_run_demo :
    let c := (({} : SyncServer).handleSyncRequest 1 5 demoFree).handleSyncRequest 2 9 demoFree
    c.sent = [1, 2] ∧ (c.serve (replicate 7 demoFree)).sent = [1, 2, 3, 4, 5, 6, 7, 8, 9] := by
  have ha : Available 9 demoFree := by
    refine ⟨fun n => ?_, rfl⟩
    simp only [demoFree, demoCall]
    split_ifs with h <;> simp [h]
  have h := (Serves.nil.request (q := .syncRequest 1 5)
    (show 1 ≤ 1 ∧ 1 ≤ 5 ∧ 5 ≤ 9 by decide) ha).request (q := .syncRequest 2 9)
    (show 0 < 9 ∧ 9 ≤ 9 ∧ (2 ≤ 9 → 1 ≤ 2) by decide) ha
  exact ⟨by decide, (served_of_run (by decide) h (replicate 7 demoFree) (by simp [ha])).1.trans
    (by decide)⟩

/-- **Blocks are lost**: the blocks 1 and 2 are asked for while 3 and 4 are served. -/
theorem exists_not_served :
    let c := (({} : SyncServer).handleSyncRequest 3 4 demoFree).handleSyncRequest 1 2 demoFree
    c.peerRequested = none ∧ c.sent = [3, 4] := by
  decide

end SyncServer

end Sysio
