import Mathlib.Data.List.GetD
import Mathlib.Data.List.Perm.Basic
import Mathlib.Data.List.Sort
import Rahgozar.Tunnel.Batch

set_option autoImplicit false

/-! # The answers of a batch are in the order of its operations

Every operation is filed once: under an answer, a drain or a task. A task is filed again when it
is joined and a drain when it is drained, so in the end there is one answer for each operation,
and the sort puts it at the operation's place.
-/

namespace Rahgozar.Tunnel

namespace Batch

/-! ## The answer of an operation -/

/-- The session an operation is answered for: the one it names, or the one it has opened. -/
def OwnSid (log : List Access) (i : Nat) (op : BatchOp) (sid : String) : Prop :=
  if opensConnection op then ∃ inner, .named i sid inner ∈ log ∨ .namedUdp i sid inner ∈ log
  else op.sid = some sid

/-- An answer to operation `i`: the sid and the echo of `seq` are the operation's, and data and
datagrams were taken for it out of the session it had under that sid. -/
structure Answers (log : List Access) (i : Nat) (op : BatchOp) (r : TunnelResponse) : Prop where
  sid : ∀ sid, r.sid = some sid → OwnSid log i op sid
  seq : ∀ n, r.seq = some n → op.seq = some n
  echo : op.op = "data" ∨ op.op = "udp_data" → r.e = none → r.sid = op.sid ∧ r.seq = op.seq
  data : ∀ text, r.d = some text → ∃ sid inner bytes, r.sid = some sid ∧
    .named i sid inner ∈ log ∧ .took i inner bytes ∈ log ∧ text = Base64.encode bytes
  pkts : ∀ texts, r.pkts = some texts → ∃ sid inner packets, r.sid = some sid ∧
    .namedUdp i sid inner ∈ log ∧ .tookPackets i inner packets ∈ log ∧
      texts = packets.map Base64.encode

/-- One answer for each operation, at its place. -/
structure Positional (log : List Access) (ops : List BatchOp) (rs : List TunnelResponse) :
    Prop where
  length : rs.length = ops.length
  answers : ∀ i op r, ops[i]? = some op → rs[i]? = some r → Answers log i op r

variable {log log' : List Access} {i : Nat} {op : BatchOp} {r : TunnelResponse}

theorem OwnSid.mono {sid : String} (h : OwnSid log i op sid) (hlog : log ⊆ log') :
    OwnSid log' i op sid := by
  unfold OwnSid at h ⊢
  split_ifs at h ⊢ with ho
  · obtain ⟨inner, h⟩ := h
    exact ⟨inner, h.imp (fun hm => hlog hm) (fun hm => hlog hm)⟩
  · exact h

theorem Answers.mono (h : Answers log i op r) (hlog : log ⊆ log') : Answers log' i op r where
  sid sid hr := (h.sid sid hr).mono hlog
  seq := h.seq
  echo := h.echo
  data text hr := by
    obtain ⟨sid, inner, bytes, hsid, hn, ht, heq⟩ := h.data text hr
    exact ⟨sid, inner, bytes, hsid, hlog hn, hlog ht, heq⟩
  pkts texts hr := by
    obtain ⟨sid, inner, packets, hsid, hn, ht, heq⟩ := h.pkts texts hr
    exact ⟨sid, inner, packets, hsid, hlog hn, hlog ht, heq⟩

theorem Answers.error (msg : String) : Answers log i op (.error msg) where
  sid := nofun
  seq := nofun
  echo := nofun
  data := nofun
  pkts := nofun

theorem Answers.unsupportedOp : Answers log i op (.unsupportedOp op.op) where
  sid := nofun
  seq := nofun
  echo := nofun
  data := nofun
  pkts := nofun

/-- An answer without data for the operation's own session. -/
theorem Answers.eof {sid : String} (hop : opensConnection op = false) (hsid : op.sid = some sid) :
    Answers log i op (eofResponse sid op.seq) where
  sid sid' hr := by
    cases hr
    simpa [OwnSid, hop] using hsid
  seq n hr := hr
  echo _ _ := ⟨hsid.symm, rfl⟩
  data := nofun
  pkts := nofun

/-! ## Filing -/

/-- Where an operation is filed. -/
inductive Filed where
  | answer (r : TunnelResponse)
  | tcp (d : Drain)
  | udp (d : Drain)
  | job (op : BatchOp)

/-- A drain of the operation's own session, to be answered with its `seq` if it is a poll. -/
structure Drains (log : List Access) (i : Nat) (op : BatchOp) (d : Drain) : Prop where
  index : d.i = i
  sid : OwnSid log i op d.sid
  seq : ∀ n, d.seq = some n → op.seq = some n
  echo : op.op = "data" ∨ op.op = "udp_data" → some d.sid = op.sid ∧ d.seq = op.seq

theorem Drains.mono {d : Drain} (h : Drains log i op d) (hlog : log ⊆ log') :
    Drains log' i op d := ⟨h.index, h.sid.mono hlog, h.seq, h.echo⟩

/-- An answer is filed before anything is drained, so it carries no data. -/
def Filed.Suits (log : List Access) (i : Nat) (op : BatchOp) : Filed → Prop
  | answer r => Answers log i op r ∧ r.d = none ∧ r.pkts = none
  | tcp d => Drains log i op d ∧ .named i d.sid d.inner ∈ log
  | udp d => Drains log i op d ∧ .namedUdp i d.sid d.inner ∈ log
  | job op' => op' = op ∧ opensConnection op = true

theorem suits_error (msg : String) : (Filed.answer (.error msg)).Suits log i op :=
  ⟨Answers.error msg, rfl, rfl⟩

theorem Filed.Suits.mono {f : Filed} (h : f.Suits log i op) (hlog : log ⊆ log') :
    f.Suits log' i op := by
  cases f with
  | answer r => exact ⟨h.1.mono hlog, h.2⟩
  | tcp d => exact ⟨h.1.mono hlog, hlog h.2⟩
  | udp d => exact ⟨h.1.mono hlog, hlog h.2⟩
  | job op' => exact h

/-- The four lists a thing can be filed in. -/
def Filed.results (i : Nat) : Filed → List (Nat × TunnelResponse)
  | answer r => [(i, r)]
  | _ => []

def Filed.tcpDrains : Filed → List Drain
  | tcp d => [d]
  | _ => []

def Filed.udpDrains : Filed → List Drain
  | udp d => [d]
  | _ => []

def Filed.jobs (i : Nat) : Filed → List (Nat × BatchOp)
  | job op => [(i, op)]
  | _ => []

/-- `b'` is `b` with one more thing filed; the log may have grown and the state may be another. -/
structure Files (i : Nat) (op : BatchOp) (b b' : Batch) (f : Filed) : Prop where
  log : b.log ⊆ b'.log
  suits : f.Suits b'.log i op
  results : b'.results = b.results ++ f.results i
  tcp : b'.tcpDrains = b.tcpDrains ++ f.tcpDrains
  udp : b'.udpDrains = b.udpDrains ++ f.udpDrains
  jobs : b'.jobs = b.jobs ++ f.jobs i

/-- The same four lists, and no less of a log. -/
structure Keeps (b b' : Batch) : Prop where
  log : b.log ⊆ b'.log
  results : b'.results = b.results
  tcp : b'.tcpDrains = b.tcpDrains
  udp : b'.udpDrains = b.udpDrains
  jobs : b'.jobs = b.jobs

variable {b b₁ b₂ : Batch}

theorem Keeps.refl (b : Batch) : Keeps b b := ⟨List.Subset.refl _, rfl, rfl, rfl, rfl⟩

theorem Keeps.trans (h : Keeps b b₁) (h' : Keeps b₁ b₂) : Keeps b b₂ :=
  ⟨List.Subset.trans h.log h'.log, h'.results.trans h.results, h'.tcp.trans h.tcp, h'.udp.trans h.udp,
    h'.jobs.trans h.jobs⟩

/-- The lists do not depend on the shared state. -/
theorem keeps_state (state : AppState) (awaits : Nat) :
    Keeps b { b with state := state, awaits := awaits } :=
  ⟨List.Subset.refl _, rfl, rfl, rfl, rfl⟩

theorem keeps_note (a : Access) : Keeps b (b.note a) :=
  ⟨List.subset_append_left _ _, rfl, rfl, rfl, rfl⟩

theorem mem_note (b : Batch) (a : Access) : a ∈ (b.note a).log :=
  List.mem_append_right _ (List.mem_singleton_self a)

theorem Keeps.files_answer (h : Keeps b b₁) (hr : (Filed.answer r).Suits b₁.log i op) :
    Files i op b (b₁.push i r) (.answer r) where
  log := h.log
  suits := hr
  results := congrArg (· ++ [(i, r)]) h.results
  tcp := h.tcp.trans (List.append_nil _).symm
  udp := h.udp.trans (List.append_nil _).symm
  jobs := h.jobs.trans (List.append_nil _).symm

theorem Keeps.files_tcp {d : Drain} (h : Keeps b b₁) (hd : Drains b₁.log i op d)
    (hn : .named i d.sid d.inner ∈ b₁.log) :
    Files i op b { b₁ with tcpDrains := b₁.tcpDrains ++ [d] } (.tcp d) where
  log := h.log
  suits := ⟨hd, hn⟩
  results := h.results.trans (List.append_nil _).symm
  tcp := congrArg (· ++ [d]) h.tcp
  udp := h.udp.trans (List.append_nil _).symm
  jobs := h.jobs.trans (List.append_nil _).symm

theorem Keeps.files_udp {d : Drain} (h : Keeps b b₁) (hd : Drains b₁.log i op d)
    (hn : .namedUdp i d.sid d.inner ∈ b₁.log) :
    Files i op b { b₁ with udpDrains := b₁.udpDrains ++ [d] } (.udp d) where
  log := h.log
  suits := ⟨hd, hn⟩
  results := h.results.trans (List.append_nil _).symm
  tcp := h.tcp.trans (List.append_nil _).symm
  udp := congrArg (· ++ [d]) h.udp
  jobs := h.jobs.trans (List.append_nil _).symm

/-- What follows a change that keeps the lists. -/
theorem Files.after {b' : Batch} {f : Filed} (h : Files i op b₁ b' f) (hk : Keeps b b₁) :
    Files i op b b' f :=
  ⟨List.Subset.trans hk.log h.log, h.suits, hk.results ▸ h.results, hk.tcp ▸ h.tcp, hk.udp ▸ h.udp,
    hk.jobs ▸ h.jobs⟩

/-- A change that keeps the lists, behind. -/
theorem Files.before {b' : Batch} {f : Filed} (h : Files i op b b₁ f) (hk : Keeps b₁ b') :
    Files i op b b' f :=
  ⟨List.Subset.trans h.log hk.log, h.suits.mono hk.log, hk.results.trans h.results, hk.tcp.trans h.tcp,
    hk.udp.trans h.udp, hk.jobs.trans h.jobs⟩

/-! ## Phase 1 files an operation -/

variable (out : Outside)

theorem sidOf_eq_some {sid : String} (h : sidOf op = some sid) : op.sid = some sid := by
  unfold sidOf at h
  split at h
  case h_1 s hs =>
    split_ifs at h
    cases h
    exact hs
  case h_2 => cases h

/-- A poll's drain. -/
theorem drains_own {sid : String} (hop : opensConnection op = false) (hsid : op.sid = some sid)
    (inner : Nat) : Drains log i op ⟨i, sid, inner, op.seq⟩ where
  index := rfl
  sid := by simpa [OwnSid, hop] using hsid
  seq _ h := h
  echo _ := ⟨hsid.symm, rfl⟩

theorem dispatchData_files (hop : opensConnection op = false) :
    ∃ f, Files i op b (b.dispatchData out i op) f := by
  unfold dispatchData
  split
  case h_1 => exact ⟨_, (Keeps.refl b).files_answer (suits_error _)⟩
  case h_2 sid hsid =>
    have hown := sidOf_eq_some hsid
    dsimp only
    split
    case h_1 => exact ⟨_, (keeps_state _ _).files_answer ⟨.eof hop hown, rfl, rfl⟩⟩
    case h_2 inner hinner =>
      -- the session is noted before the others' turn and the write
      have hk : Keeps b (((b.await out).note (.named i sid inner)).await out) :=
        ((keeps_state _ _).trans (keeps_note _)).trans (keeps_state _ _)
      split
      · exact ⟨_, (hk.trans (keeps_state _ _)).files_tcp (drains_own hop hown inner)
          (mem_note _ _)⟩
      · exact ⟨_, (hk.trans (keeps_state _ _)).files_answer (suits_error _)⟩
      · exact ⟨_, ((hk.trans (keeps_state _ _)).files_answer (suits_error _)).before
          (keeps_state _ _)⟩

theorem dispatchUdpData_files (hop : opensConnection op = false) :
    ∃ f, Files i op b (b.dispatchUdpData out i op) f := by
  unfold dispatchUdpData
  split
  case h_1 => exact ⟨_, (Keeps.refl b).files_answer (suits_error _)⟩
  case h_2 sid hsid =>
    have hown := sidOf_eq_some hsid
    dsimp only
    split
    case h_1 => exact ⟨_, (keeps_state _ _).files_answer ⟨.eof hop hown, rfl, rfl⟩⟩
    case h_2 inner hinner =>
      have hk : Keeps b ((b.await out).note (.namedUdp i sid inner)) :=
        (keeps_state _ _).trans (keeps_note _)
      split
      · exact ⟨_, hk.files_answer (suits_error _)⟩
      · exact ⟨_, (hk.trans (keeps_state _ _)).files_udp (drains_own hop hown inner)
          (mem_note _ _)⟩

theorem close_files (hop : op.op = "close") :
    ∃ f, Files i op b ((b.handleClose out op).1.push i (b.handleClose out op).2) f := by
  unfold handleClose
  split
  case h_1 => exact ⟨_, (Keeps.refl b).files_answer (suits_error _)⟩
  case h_2 sid hsid =>
    refine ⟨_, (((keeps_state _ _).trans (keeps_state _ _)).trans
      (keeps_state _ _)).files_answer ⟨⟨?_, nofun, ?_, nofun, nofun⟩, rfl, rfl⟩⟩
    · intro sid' hr
      cases hr
      simpa [OwnSid, opensConnection, hop] using sidOf_eq_some hsid
    · simp [hop]

/-- Phase 1 files operation `i` once. -/
theorem dispatch_files (b : Batch) (i : Nat) (op : BatchOp) :
    ∃ f, Files i op b (b.dispatch out i op) f := by
  unfold dispatch
  split_ifs with hop hdata hudp hclose
  · exact ⟨.job op, List.Subset.refl _, ⟨rfl, hop⟩, (List.append_nil _).symm,
      (List.append_nil _).symm, (List.append_nil _).symm, rfl⟩
  · exact dispatchData_files out (Bool.eq_false_iff.mpr hop)
  · exact dispatchUdpData_files out (Bool.eq_false_iff.mpr hop)
  · exact close_files out hclose
  · exact ⟨_, (Keeps.refl b).files_answer ⟨.unsupportedOp, rfl, rfl⟩⟩

/-! ## A finished task files its operation -/

/-- Where a task's answer is filed. -/
def NewConn.filed (i : Nat) : NewConn → Filed
  | answer r => .answer r
  | tcp sid inner => .tcp ⟨i, sid, inner, none⟩
  | udp sid inner => .udp ⟨i, sid, inner, none⟩

/-- The task has kept the lists and its answer suits its operation. -/
def JobDone (b : Batch) (i : Nat) (op : BatchOp) (done : Batch × NewConn) : Prop :=
  Keeps b done.1 ∧ (done.2.filed i).Suits done.1.log i op

theorem jobDone_error (msg : String) : JobDone b i op (b, .answer (.error msg)) :=
  ⟨Keeps.refl b, suits_error msg⟩

theorem opensConnection_op (hop : opensConnection op = true) :
    ¬ (op.op = "data" ∨ op.op = "udp_data") := by
  unfold opensConnection at hop
  rintro (h | h) <;> simp [h] at hop

/-- A drain of a session the operation has opened. -/
theorem drains_opened {sid : String} {inner : Nat} (hop : opensConnection op = true)
    (h : .named i sid inner ∈ log ∨ .namedUdp i sid inner ∈ log) :
    Drains log i op ⟨i, sid, inner, none⟩ where
  index := rfl
  sid := by
    rw [OwnSid, if_pos hop]
    exact ⟨inner, h⟩
  seq := nofun
  echo ho := absurd ho (opensConnection_op hop)

theorem keeps_enter (i : Nat) (sid : String) (inner : Nat) : Keeps b (b.enter i sid inner) :=
  (keeps_state _ _).trans (keeps_note _)

theorem keeps_enterUdp (i : Nat) (sid : String) (inner : Nat) :
    Keeps b (b.enterUdp i sid inner) :=
  (keeps_state _ _).trans (keeps_note _)

theorem validateHostPort_error {r : TunnelResponse} (h : validateHostPort op = .error r) :
    ∃ msg, r = .error msg := by
  unfold validateHostPort at h
  split at h
  case h_1 => exact ⟨_, (Except.error.inj h).symm⟩
  case h_2 host hhost =>
    split_ifs at h
    · exact ⟨_, (Except.error.inj h).symm⟩
    · split at h
      case h_1 => exact ⟨_, (Except.error.inj h).symm⟩
      case h_2 port hport =>
        split_ifs at h
        exact ⟨_, (Except.error.inj h).symm⟩

theorem handleConnect_done (hop : opensConnection op = true) :
    JobDone b i op (b.handleConnect out i op) := by
  unfold handleConnect
  split
  case h_1 r hr =>
    obtain ⟨msg, rfl⟩ := validateHostPort_error hr
    exact jobDone_error msg
  case h_2 =>
    split
    · exact jobDone_error _
    · rename_i sid inner hdial
      refine ⟨keeps_enter i sid inner, ⟨?_, nofun, ?_, nofun, nofun⟩, rfl, rfl⟩
      · intro sid' hr
        cases hr
        rw [OwnSid, if_pos hop]
        exact ⟨inner, .inl (mem_note _ _)⟩
      · exact fun ho => absurd ho (opensConnection_op hop)

theorem handleConnectDataPhase1_done (hop : opensConnection op = true) :
    JobDone b i op (b.handleConnectDataPhase1 out i op) := by
  unfold handleConnectDataPhase1
  split
  case h_1 r hr =>
    obtain ⟨msg, rfl⟩ := validateHostPort_error hr
    exact jobDone_error msg
  case h_2 =>
    split
    · exact jobDone_error _
    · rename_i sid inner hdial
      split
      · exact jobDone_error _
      · dsimp only
        split_ifs
        · exact ⟨(keeps_state _ _).trans (keeps_enter i sid inner),
            drains_opened hop (.inl (mem_note _ _)), mem_note _ _⟩
        · exact jobDone_error _

theorem handleUdpOpenPhase1_done (hop : opensConnection op = true) :
    JobDone b i op (b.handleUdpOpenPhase1 out i op) := by
  unfold handleUdpOpenPhase1
  split
  case h_1 r hr =>
    obtain ⟨msg, rfl⟩ := validateHostPort_error hr
    exact jobDone_error msg
  case h_2 =>
    split
    · exact jobDone_error _
    · rename_i sid inner hdial
      have hopened (b₁ : Batch) :
          (Filed.udp ⟨i, sid, inner, none⟩).Suits (b₁.enterUdp i sid inner).log i op :=
        ⟨drains_opened hop (.inr (mem_note _ _)), mem_note _ _⟩
      split
      · exact jobDone_error _
      · split
        · split_ifs
          · exact ⟨keeps_enterUdp i sid inner, hopened b⟩
          · exact jobDone_error _
        · exact ⟨(keeps_state _ _).trans (keeps_enterUdp i sid inner), hopened _⟩

theorem runJob_done (hop : opensConnection op = true) : JobDone b i op (b.runJob out i op) := by
  unfold runJob
  split_ifs
  · exact handleConnect_done out hop
  · exact handleConnectDataPhase1_done out hop
  · exact handleUdpOpenPhase1_done out hop

/-- A task that does not panic files its operation once, and not as a task again. -/
theorem join_files (hp : out.panics i = false) (hop : opensConnection op = true) :
    ∃ f, Files i op b (b.join out (i, op)) f ∧ f.jobs i = [] := by
  obtain ⟨hk, hsuits⟩ := runJob_done (b := b.await out) out (i := i) hop
  have hk' : Keeps b ((b.await out).runJob out i op).1 := (keeps_state _ _).trans hk
  unfold join
  rw [if_neg (by simp [hp])]
  dsimp only
  rcases hrun : (b.await out).runJob out i op with ⟨b₁, r | ⟨sid, inner⟩ | ⟨sid, inner⟩⟩ <;>
    rw [hrun] at hsuits hk'
  · exact ⟨_, hk'.files_answer hsuits, rfl⟩
  · exact ⟨_, hk'.files_tcp hsuits.1 hsuits.2, rfl⟩
  · exact ⟨_, hk'.files_udp hsuits.1 hsuits.2, rfl⟩

/-! ## Everything is filed once -/

/-- The operations filed in a batch. -/
def keys (b : Batch) : List Nat :=
  b.results.map Prod.fst ++ b.tcpDrains.map Drain.i ++ b.udpDrains.map Drain.i ++
    b.jobs.map Prod.fst

def Holds (b : Batch) (i : Nat) : Filed → Prop
  | .answer r => (i, r) ∈ b.results
  | .tcp d => d.i = i ∧ d ∈ b.tcpDrains
  | .udp d => d.i = i ∧ d ∈ b.udpDrains
  | .job op => (i, op) ∈ b.jobs

/-- The operations `is` are filed, each once and each in its own way. -/
structure Filing (ops : List BatchOp) (is : List Nat) (b : Batch) : Prop where
  keys : b.keys.Perm is
  suits : ∀ i f, b.Holds i f → ∃ op, ops[i]? = some op ∧ f.Suits b.log i op

variable {ops : List BatchOp} {is : List Nat}

theorem Filing.perm {is' : List Nat} (h : Filing ops is b) (hp : is.Perm is') :
    Filing ops is' b := ⟨h.keys.trans hp, h.suits⟩

theorem Files.keys {f : Filed} (h : Files i op b b₁ f) : b₁.keys.Perm (i :: b.keys) := by
  have hcount : ∀ j, b₁.keys.count j = (i :: b.keys).count j := by
    intro j
    have hsuits := h.suits
    simp only [Batch.keys, h.results, h.tcp, h.udp, h.jobs, List.map_append, List.count_append,
      List.count_cons]
    cases f with
    | answer r => simp [Filed.results, Filed.tcpDrains, Filed.udpDrains, Filed.jobs,
        List.count_singleton]; omega
    | tcp d => simp [Filed.results, Filed.tcpDrains, Filed.udpDrains, Filed.jobs,
        List.count_singleton, hsuits.1.index]; omega
    | udp d => simp [Filed.results, Filed.tcpDrains, Filed.udpDrains, Filed.jobs,
        List.count_singleton, hsuits.1.index]; omega
    | job op' => simp [Filed.results, Filed.tcpDrains, Filed.udpDrains, Filed.jobs,
        List.count_singleton]; omega
  exact List.perm_iff_count.mpr hcount

theorem Files.holds {f g : Filed} {j : Nat} (h : Files i op b b₁ f) (hg : b₁.Holds j g) :
    b.Holds j g ∨ (j = i ∧ g = f) := by
  have hsuits := h.suits
  cases g with
  | answer r =>
      simp only [Holds, h.results, List.mem_append] at hg ⊢
      refine hg.imp_right fun hm => ?_
      cases f <;> simp_all [Filed.results]
  | tcp d =>
      simp only [Holds, h.tcp, List.mem_append] at hg ⊢
      obtain ⟨hi, hm | hm⟩ := hg
      · exact .inl ⟨hi, hm⟩
      · cases f <;> simp_all [Filed.tcpDrains]
        exact .inr (hi.symm.trans hsuits.1.index)
  | udp d =>
      simp only [Holds, h.udp, List.mem_append] at hg ⊢
      obtain ⟨hi, hm | hm⟩ := hg
      · exact .inl ⟨hi, hm⟩
      · cases f <;> simp_all [Filed.udpDrains]
        exact .inr (hi.symm.trans hsuits.1.index)
  | job op' =>
      simp only [Holds, h.jobs, List.mem_append] at hg ⊢
      refine hg.imp_right fun hm => ?_
      cases f <;> simp_all [Filed.jobs]

/-- One more operation is filed. -/
theorem Filing.files {f : Filed} (h : Filing ops is b) (hf : Files i op b b₁ f)
    (hop : ops[i]? = some op) : Filing ops (i :: is) b₁ where
  keys := hf.keys.trans (h.keys.cons i)
  suits j g hg := by
    rcases hf.holds hg with hold | ⟨rfl, rfl⟩
    · obtain ⟨op', hop', hs⟩ := h.suits j g hold
      exact ⟨op', hop', hs.mono hf.log⟩
    · exact ⟨op, hop, hf.suits⟩

theorem start_filing (state : AppState) : Filing ops [] (start state) where
  keys := List.Perm.refl _
  suits i f hf := by
    cases f with
    | answer r => cases hf
    | tcp d => cases hf.2
    | udp d => cases hf.2
    | job op => cases hf

/-- Phase 1 files the operations from number `i` on. -/
theorem dispatchAll_filing (ops rest : List BatchOp) :
    ∀ (i : Nat) (b : Batch), ops.drop i = rest → Filing ops (List.range i) b →
      Filing ops (List.range (i + rest.length)) (b.dispatchAll out i rest) := by
  induction rest with
  | nil =>
      intro i b _ hb
      exact hb
  | cons op rest ih =>
      intro i b hdrop hb
      have hop : ops[i]? = some op := by
        rw [← Nat.add_zero i, ← List.getElem?_drop, hdrop]
        rfl
      have hrest : ops.drop (i + 1) = rest := by
        rw [← List.drop_drop, hdrop]
        rfl
      obtain ⟨f, hf⟩ := dispatch_files out b i op
      have hperm : (i :: List.range i).Perm (List.range (i + 1)) := by
        rw [List.range_succ]
        exact (List.perm_append_singleton i (List.range i)).symm
      have hnext := ih (i + 1) _ hrest ((hb.files hf hop).perm hperm)
      rw [show i + (op :: rest).length = i + 1 + rest.length by simp; omega]
      exact hnext

theorem completionOrder_perm {α : Type} (picks : List Nat) :
    ∀ jobs : List α, (completionOrder picks jobs).Perm jobs := by
  induction picks with
  | nil =>
      intro jobs
      rw [completionOrder]
  | cons k picks ih =>
      intro jobs
      cases jobs with
      | nil => rw [completionOrder]
      | cons job jobs =>
          have hk : k % (job :: jobs).length < (job :: jobs).length :=
            Nat.mod_lt _ (Nat.succ_pos _)
          rw [completionOrder, List.getD_eq_getElem _ _ hk]
          exact ((ih _).cons _).trans (List.getElem_cons_eraseIdx_perm hk)

/-- The tasks that are left are filed one after the other. -/
theorem join_filing (hp : ∀ i, out.panics i = false) (jobs : List (Nat × BatchOp)) :
    ∀ (is : List Nat) (b : Batch), b.jobs = [] → Filing ops is b →
      (∀ job ∈ jobs, ops[job.1]? = some job.2 ∧ opensConnection job.2 = true) →
      Filing ops (jobs.map Prod.fst ++ is) (jobs.foldl (join out) b) ∧
        (jobs.foldl (join out) b).jobs = [] := by
  induction jobs with
  | nil =>
      intro is b hjobs hb _
      exact ⟨hb, hjobs⟩
  | cons job jobs ih =>
      intro is b hjobs hb hall
      obtain ⟨hop, hopens⟩ := hall job List.mem_cons_self
      obtain ⟨f, hf, hnone⟩ := join_files out (b := b) (hp job.1) hopens
      have hempty : (b.join out job).jobs = [] := by
        rw [hf.jobs, hjobs, hnone]
        rfl
      obtain ⟨hfiling, hdone⟩ := ih (job.1 :: is) (b.join out job) hempty (hb.files hf hop)
        fun j hj => hall j (List.mem_cons_of_mem _ hj)
      exact ⟨hfiling.perm List.perm_middle, hdone⟩

theorem joinAll_filing (hp : ∀ i, out.panics i = false) (hb : Filing ops is b) :
    Filing ops is (b.joinAll out) ∧ (b.joinAll out).jobs = [] := by
  have hperm := completionOrder_perm out.finishing b.jobs
  have hrest : Filing ops (Batch.keys { b with jobs := [] }) { b with jobs := [] } := by
    refine ⟨List.Perm.refl _, fun i f hf => hb.suits i f ?_⟩
    cases f with
    | job op => cases hf
    | answer r => exact hf
    | tcp d => exact hf
    | udp d => exact hf
  obtain ⟨hfiling, hdone⟩ := join_filing out hp _ _ _ rfl hrest fun job hjob => by
    obtain ⟨op, hop, rfl, hopens⟩ := hb.suits job.1 (.job job.2) (hperm.mem_iff.mp hjob)
    exact ⟨hop, hopens⟩
  refine ⟨hfiling.perm (.trans ?_ hb.keys), hdone⟩
  have hkeys : b.keys = Batch.keys { b with jobs := [] } ++ b.jobs.map Prod.fst := by
    simp [Batch.keys]
  rw [hkeys]
  exact (List.perm_append_comm).trans ((hperm.map Prod.fst).append_left _)

/-! ## Phase 2 answers what is left -/

/-- `b'` is `b` with answers to the operations `is`, in this order. -/
structure Answered (ops : List BatchOp) (is : List Nat) (b b' : Batch) : Prop where
  log : b.log ⊆ b'.log
  keys : b'.results.map Prod.fst = b.results.map Prod.fst ++ is
  suits : ∀ x ∈ b'.results, x ∈ b.results ∨ ∃ op, ops[x.1]? = some op ∧ Answers b'.log x.1 op x.2
  udp : b'.udpDrains = b.udpDrains

theorem Answered.refl (b : Batch) : Answered ops [] b b :=
  ⟨List.Subset.refl _, (List.append_nil _).symm, fun _ hx => .inl hx, rfl⟩

theorem Answered.trans {is' : List Nat} (h : Answered ops is b b₁) (h' : Answered ops is' b₁ b₂) :
    Answered ops (is ++ is') b b₂ where
  log := List.Subset.trans h.log h'.log
  keys := by rw [h'.keys, h.keys, List.append_assoc]
  suits x hx := by
    rcases h'.suits x hx with hold | hnew
    · refine (h.suits x hold).imp_right fun hx => ?_
      obtain ⟨op, hop, ha⟩ := hx
      exact ⟨op, hop, ha.mono h'.log⟩
    · exact .inr hnew
  udp := h'.udp.trans h.udp

theorem Keeps.answered (h : Keeps b b₁) (hop : ops[i]? = some op) (hr : Answers b₁.log i op r) :
    Answered ops [i] b (b₁.push i r) where
  log := h.log
  keys := by simp [push, h.results]
  suits x hx := by
    rw [push, h.results] at hx
    rcases List.mem_append.mp hx with hold | hnew
    · exact .inl hold
    · rw [List.mem_singleton] at hnew
      subst hnew
      exact .inr ⟨op, hop, hr⟩
  udp := h.udp

/-- The answer to a drain that found `data`. -/
theorem Drains.answers {d : Drain} {data : List UInt8} {eof : Bool} (h : Drains log i op d)
    (hn : .named i d.sid d.inner ∈ log) (ht : data = [] ∨ .took i d.inner data ∈ log) :
    Answers log i op (tcpDrainResponse d.sid data eof d.seq) where
  sid sid hr := Option.some.inj hr ▸ h.sid
  seq := h.seq
  echo ho _ := h.echo ho
  data text hr := by
    rw [tcpDrainResponse] at hr
    dsimp only at hr
    split_ifs at hr with hempty
    have htook := ht.resolve_left fun hnil => hempty (List.isEmpty_iff.mpr hnil)
    exact ⟨d.sid, d.inner, data, rfl, hn, htook, (Option.some.inj hr).symm⟩
  pkts := nofun

theorem Drains.answersUdp {d : Drain} {packets : List (List UInt8)} {eof : Bool}
    (h : Drains log i op d) (hn : .namedUdp i d.sid d.inner ∈ log)
    (ht : .tookPackets i d.inner packets ∈ log) :
    Answers log i op (udpDrainResponse d.sid packets eof d.seq) where
  sid sid hr := Option.some.inj hr ▸ h.sid
  seq := h.seq
  echo ho _ := h.echo ho
  data := nofun
  pkts texts hr := by
    rw [udpDrainResponse] at hr
    dsimp only at hr
    split_ifs at hr
    exact ⟨d.sid, d.inner, packets, rfl, hn, ht, (Option.some.inj hr).symm⟩

theorem drainTcp_answered {acc : Batch × Nat × List String} {d : Drain}
    (hop : ops[d.i]? = some op) (hd : (Filed.tcp d).Suits acc.1.log d.i op) :
    Answered ops [d.i] acc.1 (drainTcp out acc d).1 := by
  obtain ⟨b, remaining, eofSids⟩ := acc
  obtain ⟨hd, hn⟩ := hd
  simp only [drainTcp]
  by_cases hzero : remaining = 0
  · rw [if_pos hzero]
    exact (Keeps.refl b).answered hop (hd.answers hn (.inl rfl))
  · rw [if_neg hzero]
    rcases drainLoop (out.late d.i) remaining 0 ((b.await out).state.tcp d.inner) []
      with ⟨s, data, eof⟩
    have hk : Keeps b (((b.await out).setTcp d.inner s).note (.took d.i d.inner data)) :=
      ((keeps_state _ _).trans (keeps_state _ _)).trans (keeps_note _)
    exact hk.answered hop ((hd.mono hk.log).answers (hk.log hn) (.inr (mem_note _ _)))

theorem drainUdp_answered {acc : Batch × List String} {d : Drain}
    (hop : ops[d.i]? = some op) (hd : (Filed.udp d).Suits acc.1.log d.i op) :
    Answered ops [d.i] acc.1 (drainUdp out acc d).1 := by
  obtain ⟨b, eofSids⟩ := acc
  obtain ⟨hd, hn⟩ := hd
  have hk : Keeps b (((b.await out).setUdp d.inner
      { (b.await out).state.udp d.inner with packets := [] }).note
        (.tookPackets d.i d.inner ((b.await out).state.udp d.inner).packets)) :=
    ((keeps_state _ _).trans (keeps_state _ _)).trans (keeps_note _)
  exact hk.answered hop ((hd.mono hk.log).answersUdp (hk.log hn) (mem_note _ _))

/-- A pass over a list of drains, each of which is answered at its turn. -/
theorem foldl_answered {γ : Type} (drain : Batch × γ → Drain → Batch × γ) (file : Drain → Filed)
    (hdrain : ∀ (acc : Batch × γ) (d : Drain) (op : BatchOp), ops[d.i]? = some op →
      (file d).Suits acc.1.log d.i op → Answered ops [d.i] acc.1 (drain acc d).1)
    (ds : List Drain) :
    ∀ acc : Batch × γ,
      (∀ d ∈ ds, ∃ op, ops[d.i]? = some op ∧ (file d).Suits acc.1.log d.i op) →
      Answered ops (ds.map Drain.i) acc.1 (ds.foldl drain acc).1 := by
  induction ds with
  | nil =>
      intro acc _
      exact Answered.refl acc.1
  | cons d ds ih =>
      intro acc hall
      obtain ⟨op, hop, hd⟩ := hall d List.mem_cons_self
      have hfirst := hdrain acc d op hop hd
      refine hfirst.trans (ih (drain acc d) fun d' hd' => ?_)
      obtain ⟨op', hop', hs⟩ := hall d' (List.mem_cons_of_mem _ hd')
      exact ⟨op', hop', hs.mono hfirst.log⟩

/-- Sessions leave the table; the lists stay. -/
theorem keeps_foldl_remove (remove : Batch → String → Batch)
    (hremove : ∀ b sid, Keeps b (remove b sid)) (sids : List String) :
    ∀ b, Keeps b (sids.foldl remove b) := by
  induction sids with
  | nil => exact Keeps.refl
  | cons sid sids ih => exact fun b => (hremove b sid).trans (ih _)

theorem Answered.keeps (h : Answered ops is b b₁) (hk : Keeps b₁ b₂) : Answered ops is b b₂ where
  log := List.Subset.trans h.log hk.log
  keys := by rw [hk.results, h.keys]
  suits x hx := by
    rw [hk.results] at hx
    refine (h.suits x hx).imp_right fun hx => ?_
    obtain ⟨op, hop, ha⟩ := hx
    exact ⟨op, hop, ha.mono hk.log⟩
  udp := hk.udp.trans h.udp

theorem drainAllTcp_answered (ops : List BatchOp) (b : Batch)
    (h : ∀ d ∈ b.tcpDrains, ∃ op, ops[d.i]? = some op ∧ (Filed.tcp d).Suits b.log d.i op) :
    Answered ops (b.tcpDrains.map Drain.i) b (b.drainAllTcp out) :=
  (foldl_answered (drainTcp out) Filed.tcp (fun _ _ _ hop hd => drainTcp_answered out hop hd)
    b.tcpDrains (b, batchResponseBudget, []) h).keeps
      (keeps_foldl_remove _ (fun _ _ => keeps_state _ _) _ _)

theorem drainAllUdp_answered (ops : List BatchOp) (b : Batch)
    (h : ∀ d ∈ b.udpDrains, ∃ op, ops[d.i]? = some op ∧ (Filed.udp d).Suits b.log d.i op) :
    Answered ops (b.udpDrains.map Drain.i) b (b.drainAllUdp out) :=
  (foldl_answered (drainUdp out) Filed.udp (fun _ _ _ hop hd => drainUdp_answered out hop hd)
    b.udpDrains (b, []) h).keeps (keeps_foldl_remove _ (fun _ _ => keeps_state _ _) _ _)

/-- When all is filed and no task is left, phase 2 leaves one answer for each operation. -/
theorem drains_filing (hb : Filing ops is b) (hjobs : b.jobs = []) :
    (((b.drainAllTcp out).drainAllUdp out).results.map Prod.fst).Perm is ∧
      ∀ x ∈ ((b.drainAllTcp out).drainAllUdp out).results, ∃ op, ops[x.1]? = some op ∧
        Answers ((b.drainAllTcp out).drainAllUdp out).log x.1 op x.2 := by
  have htcp := drainAllTcp_answered out ops b fun d hd => hb.suits d.i (.tcp d) ⟨rfl, hd⟩
  have hudp := drainAllUdp_answered out ops (b.drainAllTcp out) fun d hd => by
    rw [htcp.udp] at hd
    obtain ⟨op, hop, hs⟩ := hb.suits d.i (.udp d) ⟨rfl, hd⟩
    exact ⟨op, hop, hs.mono htcp.log⟩
  have hall := htcp.trans hudp
  constructor
  · rw [hall.keys, htcp.udp]
    have hkeys := hb.keys
    rw [Batch.keys, hjobs, List.map_nil, List.append_nil, List.append_assoc] at hkeys
    exact hkeys
  · intro x hx
    rcases hall.suits x hx with hold | hnew
    · obtain ⟨op, hop, ha, -⟩ := hb.suits x.1 (.answer x.2) hold
      exact ⟨op, hop, Answers.mono ha hall.log⟩
    · exact hnew

/-! ## The sorted answers -/

/-- Sorting by distinct keys `0, …, n - 1` puts every entry at the place of its key. -/
theorem getElem?_mergeSort_of_perm_range {α : Type} {l : List (Nat × α)} {n : Nat}
    (h : (l.map Prod.fst).Perm (List.range n)) {i : Nat} {x : Nat × α}
    (hx : (l.mergeSort fun x y => decide (x.1 ≤ y.1))[i]? = some x) : x.1 = i ∧ x ∈ l := by
  have hperm := List.mergeSort_perm l fun x y => decide (x.1 ≤ y.1)
  have hsorted : (l.mergeSort fun x y => decide (x.1 ≤ y.1)).Pairwise
      fun x y => decide (x.1 ≤ y.1) = true :=
    List.pairwise_mergeSort (fun a b c hab hbc => by simp at *; omega)
      (fun a b => by simp; omega) l
  have hsortedKeys : ((l.mergeSort fun x y => decide (x.1 ≤ y.1)).map Prod.fst).Pairwise
      (· ≤ ·) := by
    rw [List.pairwise_map]
    exact hsorted.imp fun hle => by simpa using hle
  have hsortedRange : (List.range n).Pairwise (· ≤ ·) :=
    List.pairwise_lt_range.imp fun hlt => Nat.le_of_lt hlt
  have hkeys : (l.mergeSort fun x y => decide (x.1 ≤ y.1)).map Prod.fst = List.range n :=
    ((hperm.map Prod.fst).trans h).eq_of_pairwise
      (fun a b _ _ hab hba => Nat.le_antisymm hab hba) hsortedKeys hsortedRange
  constructor
  · have hi : ((l.mergeSort fun x y => decide (x.1 ≤ y.1)).map Prod.fst)[i]? = some x.1 := by
      rw [List.getElem?_map, hx]
      rfl
    rw [hkeys, List.getElem?_range] at hi
    · exact (Option.some.inj hi).symm
    · have hlt := (List.getElem?_eq_some_iff.mp hi).1
      simpa using hlt
  · exact hperm.mem_iff.mp (List.mem_of_getElem? hx)

theorem execute_positional (state : AppState) (ops : List BatchOp)
    (hp : ∀ i, out.panics i = false) :
    Positional (execute out state ops).log ops (execute out state ops).responses := by
  have hfiled := dispatchAll_filing out ops ops 0 (start state) rfl (start_filing state)
  rw [Nat.zero_add] at hfiled
  obtain ⟨hjoined, hjobs⟩ := joinAll_filing out hp hfiled
  obtain ⟨hkeys, hanswers⟩ := drains_filing out hjoined hjobs
  constructor
  · rw [responses, List.length_map, List.length_mergeSort, ← List.length_map Prod.fst,
      execute, hkeys.length_eq, List.length_range]
  · intro i op r hop hr
    rw [responses, List.getElem?_map, Option.map_eq_some_iff] at hr
    obtain ⟨x, hx, rfl⟩ := hr
    obtain ⟨hi, hmem⟩ := getElem?_mergeSort_of_perm_range hkeys hx
    obtain ⟨op', hop', ha⟩ := hanswers x hmem
    rw [hi] at hop' ha
    cases hop.symm.trans hop'
    exact ha

end Batch

open Batch

/-- **Answers by position.** A batch that is executed, or replayed from the request that executed
it, without a panic among its tasks gets exactly one answer for each operation, and the answer at
place `i` is the answer to operation `i`. -/
theorem handleBatch_positional (out owner : Outside) (claimed : Claimed)
    (state ownerState : AppState) (ops : List BatchOp)
    (hclaimed : claimed.execution out state = some (owner, ownerState))
    (hp : ∀ i, owner.panics i = false) :
    Positional (execute owner ownerState ops).log ops (handleBatch out claimed state ops) := by
  rw [handleBatch, hclaimed]
  exact execute_positional owner ownerState ops hp

/-- Nothing happens beside the handler, and nothing can be reached. -/
def quiet : Outside where
  others _ s := s
  dial _ := .error "Connection refused (os error 111)"
  writeError _ := "Broken pipe (os error 32)"
  sendError _ := none
  decodeError _ := "Invalid padding"
  panics _ := false
  finishing := []
  late _ _ := false

/-- A node with one TCP session `a`, whose buffer holds two bytes. -/
def nodeWithSession : AppState where
  sessions sid := if sid = "a" then some 0 else none
  udpSessions _ := none
  tcp _ := ⟨{ SessionInner.new none with readBuf := [104, 105] }, []⟩
  udp _ := ⟨[], false, []⟩

/-- A connect, an operation without a sid and a poll of the session. -/
def mixedBatch : List BatchOp :=
  [ ⟨"connect", none, some "192.0.2.1", some 443, none, none, none⟩,
    ⟨"data", none, none, none, none, some 4, none⟩,
    ⟨"data", some "a", none, none, none, some 7, none⟩ ]

theorem handleBatch_positional_mixedBatch :
    Claimed.execute.execution quiet nodeWithSession = some (quiet, nodeWithSession) ∧
      (∀ i, quiet.panics i = false) ∧
      Positional (execute quiet nodeWithSession mixedBatch).log mixedBatch
        (handleBatch quiet .execute nodeWithSession mixedBatch) :=
  ⟨rfl, fun _ => rfl,
    handleBatch_positional quiet quiet .execute nodeWithSession nodeWithSession mixedBatch rfl
      fun _ => rfl⟩

/-- Two polls, which the registry de-duplicates. -/
def twoPolls : List BatchOp :=
  [ ⟨"data", some "a", none, none, none, some 7, none⟩,
    ⟨"data", some "b", none, none, none, some 9, none⟩ ]

/-- A duplicate whose owner is cancelled gets one entry for two operations. -/
theorem ownerCancelled_one_entry :
    batchIsReplaySafe twoPolls = true ∧ (∀ i, quiet.panics i = false) ∧
      ∀ log, ¬ Positional log twoPolls
        (handleBatch quiet .ownerCancelled nodeWithSession twoPolls) := by
  refine ⟨by decide, fun _ => rfl, ?_⟩
  intro log h
  exact absurd h.length (by decide)

end Rahgozar.Tunnel
