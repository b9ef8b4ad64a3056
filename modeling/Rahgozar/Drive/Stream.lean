import Rahgozar.Drive.Poll
import Rahgozar.Drive.Pump
import Rahgozar.Lib.Run

set_option autoImplicit false

/-! # One session over the mailbox

Client and relay of one session run together. The folder is not trusted: a listing shows any files
with any bodies, in any order and as often as it likes. What protects the session is the sealing,
which is taken to be ideal along the run: what opens has been sealed under the same key for the same
session and number. The relay's side is one `SessionHandle`, which gets nothing more once it has
been evicted.

Then what each side takes from its mailbox are the first frames that the other side has pushed, in
order, and what it hands to its socket are the first payloads that the other side has read.
-/

namespace Rahgozar.Drive

/-! ## The session -/

/-- The libraries, the relay's secret, and its list of destinations. -/
structure Env where
  prims : Primitives
  relaySecret : List UInt8
  destinationAllowed : List Char → Bool

/-- A session in the relay's table, with its driver. -/
structure RelaySession where
  keys : SessionKeys
  driver : Driver
  inbox : Inbox RelayInbound
  evicted : Bool

/-- `try_bootstrap_session_from_c2r_0` up to the keys. -/
def bootstrapKeys (env : Env) (file : DriveFile) (parsed : DriveFilename) : Option SessionKeys :=
  let maxTotal := maxSealedFrameBodyBytes + helloBodyLen
  if file.size.any (fun size => decide (size < helloBodyLen) || decide (maxTotal < size)) then none
  else
    match file.body with
    | none => none
    | some body =>
        if maxTotal < body.length ∨ body.length < helloBodyLen then none
        else
          match HelloBody.decode (body.take helloBodyLen) with
          | none => none
          | some hello => env.prims.relayAccept env.relaySecret parsed.sid hello

/-- The first file of the group bootstraps the session if it has the number 0. -/
def bootstrap (env : Env) (sid : SessionId) (listing : List DriveFile) : Option RelaySession :=
  match sessionGroup .clientToRelay sid listing with
  | [] => none
  | (file, parsed) :: _ =>
      if parsed.seq ≠ 0 then none
      else (bootstrapKeys env file parsed).map fun keys =>
        ⟨keys, Driver.spawn keys.kR2c sid, ⟨.new, [], none⟩, false⟩

structure Session where
  keys : SessionKeys
  client : Client
  inbox : Inbox ClientInbound
  relay : Option RelaySession

namespace Session

/-- The client has agreed on its keys and queued the session-open upload. -/
def init (env : Env) (sid : SessionId) (shared cookie : List UInt8) (opening : Opening) : Session :=
  let (kC2r, kR2c) := env.prims.deriveDirectionalKeys shared cookie sid
  ⟨⟨sid, kC2r, kR2c⟩, Client.start kC2r sid opening, ⟨.new, [], none⟩, none⟩

/-- A turn of one of the two pumps; a poll cycle of one side, which finds `listing`, whose downloads
end as `joined` and which may lose the pump after `sends` messages; the relay finds the session-open
file; the reaper removes the session. -/
inductive Event where
  | client (e : Client.Event)
  | relay (e : Driver.Event)
  | clientCycle (listing : List DriveFile) (joined : List PreparedBatch) (sends : Option Nat)
  | relayCycle (listing : List DriveFile) (joined : List PreparedBatch) (sends : Option Nat)
  | bootstrap (listing : List DriveFile)
  | evict

def step (env : Env) (s : Session) : Event → Option Session
  | .client e => (s.client.step s.inbox.mailbox e).map fun c => { s with client := c }
  | .clientCycle listing joined sends =>
      (processGroup env.prims clientSide s.keys.kR2c s.keys.sid listing joined
        { s.inbox with sends := sends }).map fun inbox => { s with inbox := inbox }
  | .bootstrap listing =>
      match s.relay with
      | some _ => none
      | none => (Drive.bootstrap env s.keys.sid listing).map fun r => { s with relay := some r }
  | .relay e =>
      match s.relay with
      | none => none
      | some r => (r.driver.step env.destinationAllowed r.inbox.mailbox e).map fun d =>
          { s with relay := some { r with driver := d } }
  | .relayCycle listing joined sends =>
      match s.relay with
      | none => none
      | some r =>
          if r.evicted then none
          else (processGroup env.prims relaySide r.keys.kC2r s.keys.sid listing joined
            { r.inbox with sends := sends }).map fun inbox =>
              { s with relay := some { r with inbox := inbox } }
  | .evict =>
      match s.relay with
      | none => none
      | some r => some { s with relay := some { r with evicted := true } }

/-! ## Ideal sealing -/

/-- Every call of `seal` in the session so far. -/
def sealed (s : Session) : List SealCall :=
  s.client.out.sealed ++ (s.relay.map fun r => r.driver.out.sealed).getD []

/-- Whatever of the listing opens has been sealed under the same key, session and number. -/
def opensOnlySealed {ι : Type} (P : Primitives) (side : PollSide ι) (key : Key) (sid : SessionId)
    (listing : List DriveFile) (calls : List SealCall) : Bool :=
  (sessionGroup side.direction sid listing).all fun e =>
    match e.1.body with
    | none => true
    | some body =>
        match P.openSealed key sid e.2.seq (body.drop (side.unsealedPrefixLen e.2.seq)) with
        | none => true
        | some plaintext => decide (⟨key, sid, e.2.seq, plaintext⟩ ∈ calls)

def idealAead (env : Env) (s : Session) : Event → Bool
  | .clientCycle listing _ _ =>
      opensOnlySealed env.prims clientSide s.keys.kR2c s.keys.sid listing s.sealed
  | .relayCycle listing _ _ =>
      match s.relay with
      | none => true
      | some r => opensOnlySealed env.prims relaySide r.keys.kC2r s.keys.sid listing s.sealed
  | _ => true

/-- The step opens only what has been sealed in the session. -/
abbrev IdealAead (env : Env) (s : Session) (e : Event) : Prop := idealAead env s e = true

theorem mem_of_opens {ι : Type} {P : Primitives} {side : PollSide ι} {key : Key} {sid : SessionId}
    {listing : List DriveFile} {calls : List SealCall}
    (h : opensOnlySealed P side key sid listing calls = true) {seq : Nat} {plaintext : List UInt8}
    (ho : Opens P side key sid listing seq plaintext) : ⟨key, sid, seq, plaintext⟩ ∈ calls := by
  obtain ⟨e, he, rfl, body, hbody, hopen⟩ := ho
  have hall := List.all_eq_true.mp h e he
  simp only [hbody, hopen, decide_eq_true_eq] at hall
  exact hall

end Session

/-- The two directions never get one key: HKDF is called with different `info`. -/
def Primitives.SeparatesDirections (P : Primitives) : Prop :=
  ∀ salt ikm sid, P.hkdf salt ikm (infoC2r sid) ≠ P.hkdf salt ikm (infoR2c sid)

/-! ## The session-open upload -/

section Opening

theorem chunks_go_length (n : Nat) (fuel : Nat) (bytes : List UInt8) :
    (chunks.go n fuel bytes).length ≤ fuel := by
  induction fuel generalizing bytes with
  | zero => exact le_rfl
  | succ fuel ih =>
      cases bytes with
      | nil => exact Nat.zero_le _
      | cons b bytes => exact Nat.succ_le_succ (ih _)

theorem length_of_mem_chunks_go {n : Nat} {fuel : Nat} {bytes piece : List UInt8}
    (h : piece ∈ chunks.go n fuel bytes) : piece.length ≤ n := by
  induction fuel generalizing bytes with
  | zero => cases h
  | succ fuel ih =>
      cases bytes with
      | nil => cases h
      | cons b bytes =>
          rcases List.mem_cons.mp h with rfl | h
          · exact List.length_take_le ..
          · exact ih h

variable (o : Opening) (sid : SessionId)

theorem Opening.payloads_length : o.payloads.length < 2 ^ 63 := by
  unfold payloads
  split_ifs
  · rw [List.length_map]
    exact lt_of_le_of_lt Option.length_toList_le (by decide)
  · exact lt_of_le_of_lt (chunks_go_length ..) o.initialClientBytes.property

theorem Opening.payload_fits {bytes : List UInt8} (h : bytes ∈ o.payloads) :
    bytes.length ≤ maxPayload := by
  unfold payloads at h
  split_ifs at h
  · obtain ⟨chunk, -, rfl⟩ := List.mem_map.mp h
    exact Sender.Chunk.fits chunk
  · exact (length_of_mem_chunks_go h).trans (by decide)

theorem utf8_append (a b : List Char) : utf8 (a ++ b) = utf8 a ++ utf8 b := List.flatMap_append

theorem length_utf8_le (text : List Char) : (utf8 text).length ≤ 4 * text.length := by
  induction text with
  | nil => exact le_rfl
  | cons c text ih =>
      have hc : (String.utf8EncodeChar c).length ≤ 4 := by
        rw [String.length_utf8EncodeChar]
        exact c.utf8Size_le_four
      rw [utf8, List.flatMap_cons, List.length_append, List.length_cons]
      unfold utf8 at ih
      omega

theorem Opening.connect_fits :
    (utf8 (o.host.val ++ ':' :: Nat.toDigits 10 o.port.toNat)).length ≤ maxPayload := by
  have hhost := o.host.property
  have hport : (Nat.toDigits 10 o.port.toNat).length ≤ 5 := by
    refine (Nat.length_toDigits_le_iff (by decide) (by decide)).mpr ?_
    have hlt := o.port.toNat_lt
    omega
  have htail := length_utf8_le (':' :: Nat.toDigits 10 o.port.toNat)
  rw [List.length_cons] at htail
  rw [utf8_append, List.length_append]
  unfold maxHeaderBytes at hhost
  unfold maxPayload
  omega

theorem Opening.numbered {i : Nat} {f : WireFrame} (h : (o.frames sid)[i]? = some f) :
    f.seq = i := by
  unfold frames at h
  cases i with
  | zero =>
      cases h
      rfl
  | succ i =>
      rw [List.getElem?_cons_succ, List.getElem?_mapIdx] at h
      obtain ⟨bytes, -, rfl⟩ := Option.map_eq_some_iff.mp h
      rfl

/-- `Connect`, or a piece of the first bytes. -/
theorem Opening.mem_frames {f : WireFrame} (h : f ∈ o.frames sid) :
    f.Sendable ∧ f.kind ≠ .eof := by
  unfold frames at h
  rcases List.mem_cons.mp h with rfl | h
  · exact ⟨⟨rfl, Nat.two_pow_pos 64, o.connect_fits⟩, nofun⟩
  · obtain ⟨i, hi, rfl⟩ := List.mem_mapIdx.mp h
    have hlen := o.payloads_length
    refine ⟨⟨rfl, ?_, o.payload_fits (List.getElem_mem hi)⟩, nofun⟩
    show i + 1 < u64Size
    unfold u64Size
    omega

theorem Opening.reads_frames : (o.frames sid).filterMap WireFrame.read = o.payloads := by
  unfold frames
  rw [List.filterMap_cons_none rfl, List.mapIdx_eq_zipIdx_map, List.filterMap_map]
  show (o.payloads.zipIdx).filterMap (some ∘ Prod.fst) = o.payloads
  rw [List.filterMap_eq_map, List.zipIdx_map_fst]

theorem Client.start_inv (key : Key) : Client.Inv [] (Client.start key sid o) := by
  have hne : 0 < (o.frames sid).length := Nat.succ_pos _
  refine ⟨⟨fun i f hf => o.numbered sid hf, fun f hf => (o.mem_frames sid hf).1, List.nil_suffix,
    ?_, List.pairwise_singleton _ _, ?_, o.reads_frames sid, ?_⟩, fun _ => rfl,
    fun _ f hf => (o.mem_frames sid hf).2, ?_⟩
  · intro c hc
    rw [List.mem_singleton.mp hc]
    exact ⟨rfl, o.frames sid, fun f hf => hf, rfl⟩
  · intro c hc
    rw [List.mem_singleton.mp hc]
    exact hne
  · refine List.pairwise_of_forall_mem_list fun f hf g _ heof => ?_
    exact absurd heof (o.mem_frames sid hf).2
  · exact ⟨List.prefix_rfl, List.prefix_rfl, fun _ _ => rfl, fun _ _ => rfl, nofun⟩

theorem Driver.spawn_inv (key : Key) : Driver.Inv [] (Driver.spawn key sid) :=
  ⟨⟨nofun, nofun, List.nil_suffix, nofun, .nil, nofun, rfl, .nil⟩, fun _ => rfl, fun _ => rfl,
    fun _ => nofun,
    ⟨List.prefix_rfl, List.prefix_rfl, fun _ _ => rfl, fun _ _ => rfl, nofun⟩⟩

end Opening

/-! ## What one side takes of the other -/

section Law

variable {ι : Type} {toInbound : WireFrame → Option ι} {view : ι → Option ClientInbound}
  {log log' : List WireFrame} {inbox : Inbox ι} {mailbox received : List ι}
  {written : List (List UInt8)} {active writable : Prop} {out : Sender}

/-- A frame becomes a message of the same meaning. -/
def Faithful (toInbound : WireFrame → Option ι) (view : ι → Option ClientInbound) : Prop :=
  ∀ w m, toInbound w = some m → view m = wireToInbound w

theorem faithful_client : Faithful wireToInbound some := fun _ _ h => h.symm

theorem faithful_relay : Faithful frameToInbound RelayInbound.view := by
  intro w m h
  unfold frameToInbound at h
  unfold wireToInbound
  cases hkind : w.kind with
  | hello => simp [hkind] at h
  | connect =>
      simp only [hkind, bind, Option.bind_eq_some_iff] at h
      obtain ⟨text, -, ⟨host, port⟩, -, hm⟩ := h
      cases hm
      rfl
  | data => simp only [hkind] at h; cases h; rfl
  | eof => simp only [hkind] at h; cases h; rfl
  | close => simp only [hkind] at h; cases h; rfl
  | error => simp only [hkind] at h; cases h; rfl

theorem read_eq (w : WireFrame) : w.read = (wireToInbound w).bind ClientInbound.payload := by
  unfold WireFrame.read wireToInbound
  cases w.kind <;> rfl

/-- What has been received and handed over follows the frames that `out` has pushed and the payloads
it has read; a closing message comes when all payloads read before it have been handed over. -/
structure StreamLaw (toInbound : WireFrame → Option ι) (view : ι → Option ClientInbound)
    (out : Sender) (received : List ι) (written : List (List UInt8)) : Prop where
  inOrder : received.map some <+: out.pushed.map toInbound
  handed : written <+: out.reads
  closing : ∀ (i : Nat) (m : ι), received[i]? = some m → Closing view m →
    (out.pushed.take i).filterMap WireFrame.read <+: written

theorem Takes.extend (h : Takes toInbound log inbox) (hlog : log <+: log') :
    Takes toInbound log' inbox := by
  obtain ⟨n, hn, hle, hmail⟩ := h
  refine ⟨n, hn, hle.trans hlog.length_le, ?_⟩
  rw [hmail, List.prefix_iff_eq_take.mp hlog, List.take_take, Nat.min_eq_left hle]

/-- Messages that are the first frames of the log carry their payloads. -/
theorem payloads_eq (hview : Faithful toInbound view) {n : Nat}
    (h : received.map some = (log.take n).map toInbound) :
    received.filterMap (payloadOf view) = (log.take n).filterMap WireFrame.read := by
  have hsome : received.filterMap (payloadOf view)
      = ((log.take n).map toInbound).filterMap fun o => o.bind (payloadOf view) := by
    rw [← h, List.filterMap_map]
    rfl
  rw [hsome, List.filterMap_map]
  refine List.filterMap_congr fun w hw => ?_
  obtain ⟨m, -, hm⟩ := List.mem_map.mp (h ▸ List.mem_map_of_mem hw)
  rw [Function.comp_apply, ← hm, Option.bind_some, payloadOf, hview w m hm.symm, read_eq]

theorem kind_of_eof {w : WireFrame} (h : wireToInbound w = some .eof) : w.kind = .eof := by
  unfold wireToInbound at h
  cases hkind : w.kind <;> simp [hkind] at h ⊢

/-- Nothing is read behind the end of the stream. -/
theorem reads_take_of_eof (hout : out.Inv) {i j : Nat} (hji : j ≤ i) {w : WireFrame}
    (hj : out.pushed[j]? = some w) (hw : w.kind = .eof) :
    (out.pushed.take i).filterMap WireFrame.read =
    (out.pushed.take j).filterMap WireFrame.read := by
  induction i, hji using Nat.le_induction with
  | base => rfl
  | succ i hji ih =>
      by_cases hlt : i < out.pushed.length
      · have hkind : (out.pushed[i]).kind ≠ .data := by
          obtain ⟨hjlt, hget⟩ := List.getElem?_eq_some_iff.mp hj
          rcases hji.eq_or_lt with rfl | hlt'
          · rw [hget, hw]
            exact nofun
          · exact List.pairwise_iff_getElem.mp hout.ended j i hjlt hlt hlt' (hget ▸ hw)
        rw [List.take_succ_eq_append_getElem hlt, List.filterMap_append, ih,
          List.filterMap_cons_none (WireFrame.read_eq_none hkind), List.filterMap_nil,
            List.append_nil]
      · rw [List.take_of_length_le (by omega), ← ih, List.take_of_length_le (by omega)]

/-- Of the mailbox and of the log the same number has been taken. -/
theorem Takes.take_received (h : Takes toInbound log inbox) (hr : received <+: inbox.mailbox)
    {i : Nat} (hi : i ≤ received.length) :
    (received.take i).map some = (log.take i).map toInbound := by
  obtain ⟨n, -, hle, hmail⟩ := h
  have hn : inbox.mailbox.length = n := by
    have hlen := congrArg List.length hmail
    rwa [List.length_map, List.length_map, List.length_take, Nat.min_eq_left hle] at hlen
  have hin : i ≤ n := hn ▸ hi.trans hr.length_le
  rw [List.prefix_iff_eq_take.mp hr, List.take_take, Nat.min_eq_left hi, List.map_take, hmail,
    ← List.map_take, List.take_take, Nat.min_eq_left hin]

/-- **What the invariants say about one direction.** -/
theorem streamLaw (hview : Faithful toInbound view) (hout : out.Inv)
    (htakes : Takes toInbound out.pushed inbox)
    (h : Handed view inbox.mailbox received written active writable) :
    StreamLaw toInbound view out received written := by
  have htake : ∀ i ≤ received.length, (received.take i).map some
      = (out.pushed.take i).map toInbound := fun i hi => htakes.take_received h.taken hi
  have hpay : ∀ i ≤ received.length, (received.take i).filterMap (payloadOf view)
      = (out.pushed.take i).filterMap WireFrame.read := fun i hi => payloads_eq hview (htake i hi)
  have hall := htake received.length le_rfl
  have hallpay := hpay received.length le_rfl
  rw [List.take_length] at hall hallpay
  refine ⟨?_, ?_, ?_⟩
  · rw [hall, List.map_take]
    exact List.take_prefix ..
  · refine h.first.trans ?_
    rw [hallpay, ← hout.reads]
    exact (List.take_prefix ..).filterMap _
  · -- by induction on the place: an earlier end of stream is followed by no payload
    intro i
    induction i using Nat.strong_induction_on with
    | _ i ih =>
        intro m hm hclosing
        obtain ⟨hi, -⟩ := List.getElem?_eq_some_iff.mp hm
        by_cases heof : ∀ k ∈ received.take i, view k ≠ some .eof
        · rw [← hpay i hi.le]
          exact h.closing i m hm hclosing heof
        · push Not at heof
          obtain ⟨k, hk, hkeof⟩ := heof
          obtain ⟨j, hj⟩ := List.mem_iff_getElem?.mp hk
          rw [List.getElem?_take] at hj
          split_ifs at hj with hji
          have hw : (received.map some)[j]? = some (some k) := by rw [List.getElem?_map, hj]; rfl
          rw [hall, List.getElem?_map] at hw
          obtain ⟨w, hw, hwk⟩ := Option.map_eq_some_iff.mp hw
          rw [List.getElem?_take] at hw
          split_ifs at hw
          have hkind : w.kind = .eof := kind_of_eof ((hview w k hwk).symm.trans hkeof)
          rw [reads_take_of_eof hout hji.le hw hkind]
          exact ih j hji k hj (.inl hkeof)

end Law

/-! ## The invariant of the session -/

/-- A bootstrap accepts some `Hello` and spawns a driver. -/
theorem bootstrap_spawns {env : Env} {sid : SessionId} {listing : List DriveFile} {r : RelaySession}
    (h : bootstrap env sid listing = some r) : ∃ hello keys,
      env.prims.relayAccept env.relaySecret sid hello = some keys ∧
      r = ⟨keys, Driver.spawn keys.kR2c sid, ⟨.new, [], none⟩, false⟩ := by
  unfold bootstrap at h
  split at h
  · cases h
  · rename_i file parsed group hgroup
    split_ifs at h
    obtain ⟨keys, hkeys, rfl⟩ := Option.map_eq_some_iff.mp h
    have hsid : parsed.sid = sid :=
      sid_of_mem_sessionGroup (e := (file, parsed)) (hgroup ▸ List.mem_cons_self)
    unfold bootstrapKeys at hkeys
    dsimp only at hkeys
    split_ifs at hkeys
    split at hkeys
    · cases hkeys
    · split_ifs at hkeys
      split at hkeys
      · cases hkeys
      · rename_i hello _
        exact ⟨hello, keys, hsid ▸ hkeys, rfl⟩

theorem Client.Inv.extend {mailbox mailbox' : List ClientInbound} {c : Client}
    (h : Client.Inv mailbox c) (hmail : mailbox <+: mailbox') : Client.Inv mailbox' c :=
  ⟨h.out, h.live, h.reading, h.handed.extend hmail⟩

theorem Driver.Inv.extend {mailbox mailbox' : List RelayInbound} {d : Driver}
    (h : Driver.Inv mailbox d) (hmail : mailbox <+: mailbox') : Driver.Inv mailbox' d :=
  ⟨h.out, h.live, h.quiet, h.reading, h.handed.extend hmail⟩

/-- The relay's side: its driver is in order, it seals under its own key, and its mailbox has the
first frames of the client's log. -/
structure RelaySession.Inv (log : List WireFrame) (r : RelaySession) : Prop where
  driver : Driver.Inv r.inbox.mailbox r.driver
  key : r.driver.out.key = r.keys.kR2c
  distinct : r.keys.kC2r ≠ r.keys.kR2c
  takes : Takes frameToInbound log r.inbox

namespace Session

/-- The frames of the relay. -/
def relayLog (s : Session) : List WireFrame := (s.relay.map fun r => r.driver.out.pushed).getD []

structure Inv (s : Session) : Prop where
  client : Client.Inv s.inbox.mailbox s.client
  key : s.client.out.key = s.keys.kC2r
  distinct : s.keys.kC2r ≠ s.keys.kR2c
  takes : Takes wireToInbound s.relayLog s.inbox
  relay : ∀ r, s.relay = some r → RelaySession.Inv s.client.out.pushed r

variable {env : Env} {s t : Session}

theorem init_inv (hsep : env.prims.SeparatesDirections) (sid : SessionId)
    (shared cookie : List UInt8) (opening : Opening) : Inv (init env sid shared cookie opening) :=
  ⟨Client.start_inv opening sid _, rfl, hsep cookie shared sid,
    ⟨0, ReplayWindow.new_counts, Nat.zero_le _, rfl⟩,
    fun _ hr => absurd hr.symm (Option.some_ne_none _)⟩

theorem relayAccept_distinct (hsep : env.prims.SeparatesDirections) {secret : List UInt8}
    {sid : SessionId} {hello : HelloBody} {keys : SessionKeys}
    (h : env.prims.relayAccept secret sid hello = some keys) : keys.kC2r ≠ keys.kR2c := by
  unfold Primitives.relayAccept at h
  dsimp only at h
  split_ifs at h
  cases h
  exact hsep _ _ _

theorem bootstrap_inv (hsep : env.prims.SeparatesDirections) {sid : SessionId}
    {listing : List DriveFile} {r : RelaySession} (h : Drive.bootstrap env sid listing = some r)
    (log : List WireFrame) : RelaySession.Inv log r ∧ r.driver.out.pushed = [] := by
  obtain ⟨hello, keys, hkeys, rfl⟩ := bootstrap_spawns h
  exact ⟨⟨Driver.spawn_inv sid _, rfl, relayAccept_distinct hsep hkeys,
    ⟨0, ReplayWindow.new_counts, Nat.zero_le _, rfl⟩⟩, rfl⟩

/-- What the relay opens decodes to frames of the client. -/
theorem relay_opens (h : Inv s) {r : RelaySession} (hr : s.relay = some r)
    {listing : List DriveFile} (hideal : opensOnlySealed env.prims relaySide r.keys.kC2r s.keys.sid
      listing s.sealed = true) {seq : Nat} {plaintext : List UInt8} {batch : Batch}
    (ho : Opens env.prims relaySide r.keys.kC2r s.keys.sid listing seq plaintext)
    (hdec : Batch.decode plaintext = .ok batch) :
    ∀ w ∈ batch.frames, s.client.out.pushed[w.seq]? = some w := by
  intro w hw
  have hrel := h.relay r hr
  have hmem := mem_of_opens hideal ho
  rw [sealed, hr] at hmem
  rcases List.mem_append.mp hmem with hmem | hmem
  · exact h.client.out.decoded hmem hdec hw
  · -- the relay's own batches are sealed under the other key
    have hkey := (hrel.driver.out.sealed _ hmem).1
    exact absurd (hkey.trans hrel.key) hrel.distinct

/-- What the client opens decodes to frames of the relay. -/
theorem client_opens (h : Inv s) {listing : List DriveFile}
    (hideal : opensOnlySealed env.prims clientSide s.keys.kR2c s.keys.sid listing s.sealed = true)
    {seq : Nat} {plaintext : List UInt8} {batch : Batch}
    (ho : Opens env.prims clientSide s.keys.kR2c s.keys.sid listing seq plaintext)
    (hdec : Batch.decode plaintext = .ok batch) :
    ∀ w ∈ batch.frames, s.relayLog[w.seq]? = some w := by
  intro w hw
  have hmem := mem_of_opens hideal ho
  rcases List.mem_append.mp hmem with hmem | hmem
  · have hkey := (h.client.out.sealed _ hmem).1
    exact absurd (hkey.trans h.key).symm h.distinct
  · cases hr : s.relay with
    | none =>
        rw [hr] at hmem
        cases hmem
    | some r =>
        rw [hr] at hmem
        rw [relayLog, hr]
        exact (h.relay r hr).driver.out.decoded hmem hdec hw

theorem Inv.relayTakes (h : Inv s) {r : RelaySession} (hr : s.relay = some r) :
    Takes wireToInbound r.driver.out.pushed s.inbox := by
  have htakes := h.takes
  rw [relayLog, hr] at htakes
  exact htakes

/-- The relay's side moves on. -/
theorem Inv.setRelay (h : Inv s) {r r' : RelaySession} (hr : s.relay = some r)
    (hr' : RelaySession.Inv s.client.out.pushed r')
    (hlog : r.driver.out.pushed <+: r'.driver.out.pushed) : Inv { s with relay := some r' } := by
  refine ⟨h.client, h.key, h.distinct, (h.relayTakes hr).extend hlog, fun q hq => ?_⟩
  cases hq
  exact hr'

/-- **One step of the session.** -/
theorem step_inv (hsep : env.prims.SeparatesDirections) {e : Event} (h : Inv s)
    (hideal : IdealAead env s e) (hs : s.step env e = some t) : Inv t := by
  cases e with
  | client e =>
      -- the log grows, so what the relay has taken stays the first part of it
      obtain ⟨c, hc, rfl⟩ := Option.map_eq_some_iff.mp hs
      have hstep := Client.step_step h.client hc
      refine ⟨hstep.inv, hstep.ext.key.trans h.key, h.distinct, h.takes, fun r hr => ?_⟩
      have hrel := h.relay r hr
      exact ⟨hrel.driver, hrel.key, hrel.distinct, hrel.takes.extend hstep.ext.pushed⟩
  | clientCycle listing joined sends =>
      obtain ⟨inbox, hg, rfl⟩ := Option.map_eq_some_iff.mp hs
      have hgrows := processGroup_grows hg
      have htakes : Takes wireToInbound s.relayLog { s.inbox with sends := sends } := h.takes
      have htakes' : Takes wireToInbound s.relayLog inbox := processGroup_takes htakes
        (fun _ _ _ ho hdec => client_opens h hideal ho hdec) hg
      exact ⟨h.client.extend hgrows, h.key, h.distinct, htakes', h.relay⟩
  | bootstrap listing =>
      cases hrelay : s.relay with
      | some r => simp [step, hrelay] at hs
      | none =>
          -- a new driver has pushed nothing, as there was no driver before
          simp only [step, hrelay] at hs
          obtain ⟨r, hr, rfl⟩ := Option.map_eq_some_iff.mp hs
          obtain ⟨hrel, hpushed⟩ := bootstrap_inv hsep hr s.client.out.pushed
          refine ⟨h.client, h.key, h.distinct, ?_, fun r' hr' => ?_⟩
          · have htakes := h.takes
            rw [relayLog, hrelay] at htakes
            show Takes wireToInbound r.driver.out.pushed s.inbox
            rw [hpushed]
            exact htakes
          · cases hr'
            exact hrel
  | relay e =>
      cases hrelay : s.relay with
      | none => simp [step, hrelay] at hs
      | some r =>
          simp only [step, hrelay] at hs
          obtain ⟨d, hd, rfl⟩ := Option.map_eq_some_iff.mp hs
          have hrel := h.relay r hrelay
          have hstep := Driver.step_step hrel.driver hd
          exact h.setRelay hrelay
            ⟨hstep.inv, hstep.ext.key.trans hrel.key, hrel.distinct, hrel.takes⟩ hstep.ext.pushed
  | relayCycle listing joined sends =>
      cases hrelay : s.relay with
      | none => simp [step, hrelay] at hs
      | some r =>
          simp only [step, hrelay] at hs
          split_ifs at hs
          obtain ⟨inbox, hg, rfl⟩ := Option.map_eq_some_iff.mp hs
          have hrel := h.relay r hrelay
          have hideal' : opensOnlySealed env.prims relaySide r.keys.kC2r s.keys.sid listing s.sealed
              = true := by
            simpa only [IdealAead, idealAead, hrelay] using hideal
          have hgrows := processGroup_grows hg
          have htakes : Takes frameToInbound s.client.out.pushed { r.inbox with sends := sends } :=
            hrel.takes
          have htakes' : Takes frameToInbound s.client.out.pushed inbox := processGroup_takes htakes
            (fun _ _ _ ho hdec => relay_opens h hrelay hideal' ho hdec) hg
          exact h.setRelay hrelay ⟨hrel.driver.extend hgrows, hrel.key, hrel.distinct, htakes'⟩
            List.prefix_rfl
  | evict =>
      cases hrelay : s.relay with
      | none => simp [step, hrelay] at hs
      | some r =>
          simp only [step, hrelay] at hs
          cases hs
          have hrel := h.relay r hrelay
          exact h.setRelay hrelay ⟨hrel.driver, hrel.key, hrel.distinct, hrel.takes⟩ List.prefix_rfl

/-- Both directions keep the law; while the relay has no session, the client gets nothing. -/
def Lawful (s : Session) : Prop :=
  match s.relay with
  | none => s.client.received = [] ∧ s.client.written = []
  | some r =>
      StreamLaw frameToInbound RelayInbound.view s.client.out r.driver.received r.driver.written ∧
        StreamLaw wireToInbound some r.driver.out s.client.received s.client.written

theorem Inv.lawful (h : Inv s) : Lawful s := by
  unfold Lawful
  cases hrelay : s.relay with
  | none =>
      have htakes := h.takes
      rw [relayLog, hrelay] at htakes
      obtain ⟨n, -, hn, hmail⟩ := htakes
      have hempty : s.inbox.mailbox = [] := by
        rw [Nat.le_zero.mp hn] at hmail
        exact List.map_eq_nil_iff.mp hmail
      have hreceived : s.client.received = [] := by
        have hr := h.client.handed.taken
        rw [hempty] at hr
        exact List.prefix_nil.mp hr
      have hwritten := h.client.handed.first
      rw [hreceived] at hwritten
      exact ⟨hreceived, List.prefix_nil.mp hwritten⟩
  | some r =>
      have hrel := h.relay r hrelay
      exact ⟨streamLaw faithful_relay h.client.out hrel.takes hrel.driver.handed,
        streamLaw faithful_client hrel.driver.out (h.relayTakes hrelay) h.client.handed⟩

/-- **The byte streams of a session.** From the session-open upload on, under any listings, any
schedule of the two pumps and any failures, each side hands to its socket the first payloads that
the other side has read, in order and each once, and a closing message behind all payloads before
it. -/
theorem streams_in_order (hsep : env.prims.SeparatesDirections) (sid : SessionId)
    (shared cookie : List UInt8) (opening : Opening) {es : List Event}
    (hideal : StepRun.AllSteps (step env) (IdealAead env) (init env sid shared cookie opening) es)
    (hrun : StepRun.run (step env) (init env sid shared cookie opening) es = some s) : Lawful s :=
  Inv.lawful <| StepRun.run_invariant (fun _ _ _ hinv hc hs => step_inv hsep hinv hc hs)
    (init_inv hsep sid shared cookie opening) hideal hrun

end Session

/-! ## A small session

The client asks for port 80 of `h` and sends two bytes, and the relay answers with one. The sealing
only binds: key, nonce and associated data stand in front of the plaintext. -/

def Primitives.transparent : Primitives where
  diffieHellman secret point := secret ++ point
  wasContributory _ := true
  hkdf salt ikm info := (salt ++ ikm).take 12 ++ info
  encrypt key nonce aad plaintext := key ++ nonce ++ aad ++ plaintext
  decrypt key nonce aad ciphertext :=
    if (key ++ nonce ++ aad).isPrefixOf ciphertext then
      some (ciphertext.drop (key ++ nonce ++ aad).length)
    else none

theorem Primitives.transparent_separates : transparent.SeparatesDirections := by
  intro salt ikm sid h
  exact absurd (List.append_cancel_left h) (by simp [infoC2r, infoR2c])

namespace Sample

def env : Env := ⟨.transparent, List.replicate 32 3, fun _ => true⟩

def sid : SessionId := ⟨List.replicate 16 0, rfl⟩

def opening : Opening := ⟨⟨['h'], by decide⟩, 80, ⟨[], by decide⟩, none⟩

def hello : HelloBody := ⟨List.replicate 32 9, List.replicate 16 5, sid⟩

def shared : List UInt8 := env.prims.diffieHellman env.relaySecret hello.clientEphemeralPubkey

def keys : Key × Key := env.prims.deriveDirectionalKeys shared hello.cookie sid

def frame (kind : FrameKind) (seq : Nat) (payload : List UInt8) : WireFrame :=
  ⟨wireVersion, kind, sid, seq, payload⟩

/-- The file of a batch with one frame, behind `hello` if there is one. -/
def file (start : List Char) (digit : Char) (front : List UInt8) (key : Key) (f : WireFrame) :
    DriveFile :=
  ⟨start ++ List.replicate 26 'a' ++ ['_', digit], none,
    some (front ++ SealCall.body env.prims ⟨key, sid, f.seq, Batch.encode ⟨[f]⟩⟩)⟩

def connect : WireFrame := frame .connect 0 (utf8 ['h', ':', '8', '0'])
def request : WireFrame := frame .data 1 [1, 2]
def answer : WireFrame := frame .data 0 [7]

def connectFile : DriveFile :=
  file prefixC2r '0' (hello.clientEphemeralPubkey ++ hello.cookie ++ sid.val) keys.1 connect

def requestFile : DriveFile := file prefixC2r '1' [] keys.1 request

def answerFile : DriveFile := file prefixR2c '0' [] keys.2 answer

def prepared (direction : Direction) (f : WireFrame) : PreparedBatch :=
  ⟨⟨.frame direction, sid, f.seq⟩, ⟨[f]⟩⟩

/-- The request is listed before the session-open file, and twice. -/
def run : List Session.Event :=
  [.client (.read (.data ⟨[1, 2], by decide⟩)), .client .timer, .bootstrap [requestFile, connectFile],
    .relayCycle [requestFile, connectFile, requestFile]
      [prepared .clientToRelay request, prepared .clientToRelay connect,
        prepared .clientToRelay request] none,
    .relay (.recv true), .relay (.dial .connected), .relay (.recv true),
    .relay (.read (.data ⟨[7], by decide⟩)), .relay .timer,
    .clientCycle [answerFile] [prepared .relayToClient answer] none, .client (.recv true)]

/-- What the two sockets have got. -/
def written (s : Session) : List (List UInt8) × Option (List (List UInt8)) :=
  (s.client.written, s.relay.map fun r => r.driver.written)

end Sample

theorem Session.streams_in_order_sample : ∃ s : Session,
    StepRun.run (step Sample.env)
      (init Sample.env Sample.sid Sample.shared Sample.hello.cookie Sample.opening) Sample.run = some s ∧
    Sample.written s = ([[7]], some [[1, 2]]) ∧ Lawful s := by
  have hwritten : (StepRun.run (step Sample.env)
      (init Sample.env Sample.sid Sample.shared Sample.hello.cookie Sample.opening) Sample.run).map
      Sample.written = some ([[7]], some [[1, 2]]) := by
    decide +kernel
  obtain ⟨s, hrun, hs⟩ := Option.map_eq_some_iff.mp hwritten
  exact ⟨s, hrun, hs, streams_in_order Primitives.transparent_separates Sample.sid Sample.shared
    Sample.hello.cookie Sample.opening (by decide +kernel) hrun⟩

end Rahgozar.Drive
