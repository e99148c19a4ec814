/-
The IPC socket over whole runs.

* `step_sound` — every callback keeps the queues of all clients and the bounds
  of their buffers;
* `ipc_frames` — what a client has been sent, in every run;
* `ipc_lines` — what a client has passed on, in the runs in which no read
  brings the unread input to 2^16 bytes;
* `ipc_batch_iff` — when a batch of lines is handled without touching the
  client after it has been freed.
-/
import Cagebreak.IpcLines

namespace Cagebreak

namespace Ipc

open Exec

variable {τ : Type} {s t : Ipc τ} {p q : ClientPtr} {c c' : Client} {n : ℕ} {server : τ}
  {parseRcLine : τ → List UInt8 → τ × List Payload}

/-- The invariant of all runs. -/
structure Sound (s : Ipc τ) : Prop extends Inv s where
  receiving : ∀ p c, s.client p = some c → c.Receiving

theorem init_sound (server : τ) : (init server).Sound :=
  ⟨⟨⟨List.nodup_nil, by simp [init]⟩, by simp [init]⟩, by simp [init]⟩

/-- Connected clients that keep their input keep the bounds of its buffer. -/
theorem Sound.of_sameReading (h : s.Sound) (hi : t.Inv)
    (hsame : ∀ q, SameReading (s.client q) (t.client q)) : t.Sound := by
  refine ⟨hi, fun q d hd => ?_⟩
  obtain ⟨c, hc, hr⟩ := hsame q d hd
  exact (h.receiving q c hc).congr hr

/-! ### Sending -/

theorem SameReading.disconnect (p q : ClientPtr) :
    SameReading (s.client q) ((s.ipcClientDisconnect p).client q) := by
  by_cases hq : q = p
  · subst hq
    rw [disconnect_self]
    rintro _ ⟨⟩
  · rw [disconnect_of_ne hq]
    exact SameReading.refl

theorem SameReading.setClient (hc : s.client p = some c) (hr : c'.reading = c.reading)
    (q : ClientPtr) : SameReading (s.client q) ((s.setClient p c').client q) := by
  by_cases hq : q = p
  · subst hq
    rw [setClient_self, hc]
    rintro _ ⟨⟩
    exact ⟨c, rfl, hr⟩
  · rw [setClient_of_ne hq]
    exact SameReading.refl

/-- What has been written moves from the buffer to the socket. -/
theorem Client.Sending.wrote {events : List Payload} (h : c.Sending events)
    (hn : n ≤ c.writeBufferLen) :
    { c with
      writeBuffer := c.writeBuffer.blit 0 (c.writeBuffer.slice n (c.writeBufferLen - n))
      writeBufferLen := c.writeBufferLen - n
      writableEventSource := c.writableEventSource && decide (c.writeBufferLen - n ≠ 0)
      written := c.written ++ c.writeBuffer.slice 0 n : Client }.Sending events := by
  refine ⟨?_, h.joined_le, (Nat.sub_le _ _).trans_lt h.len_lt, h.size, fun hpos => ?_⟩
  · have hblit := @Buffer.slice_blit c.writeBuffer
      (c.writeBuffer.slice n (c.writeBufferLen - n)) 0
    rw [Buffer.length_slice] at hblit
    have hsplit := @Buffer.slice_add c.writeBuffer n (c.writeBufferLen - n) 0
    rw [Nat.add_sub_cancel' hn, Nat.zero_add] at hsplit
    simp only [Client.pending]
    rw [hblit, List.append_assoc, ← hsplit]
    exact h.queue
  · simp only at hpos ⊢
    rw [h.source (by omega), Bool.true_and, decide_eq_true (by omega)]

theorem ipcClientHandleWritable_sound (h : s.Sound) (answer : Writable) :
    Ensures (s.ipcClientHandleWritable p answer) fun t =>
      t.Sound ∧ ∀ q, SameReading (s.client q) (t.client q) := by
  have hgone : (s.ipcClientDisconnect p).Sound ∧
      ∀ q, SameReading (s.client q) ((s.ipcClientDisconnect p).client q) :=
    ⟨h.of_sameReading (h.toInv.disconnect p) (SameReading.disconnect p), SameReading.disconnect p⟩
  refine Ensures.nonNull fun c hc => ?_
  cases answer with
  | hangup => exact Ensures.ok hgone
  | badFd => exact Ensures.ok ⟨h, fun _ => SameReading.refl⟩
  | again => exact Ensures.ok ⟨h, fun _ => SameReading.refl⟩
  | failed => exact Ensures.ok hgone
  | wrote n =>
    have hsend := (h.sending p c hc).wrote (min_le_right n _)
    exact Ensures.ok ⟨h.of_sameReading (h.toInv.setClient hc hsend) (SameReading.setClient hc rfl),
      SameReading.setClient hc rfl⟩

theorem ipcSendEvent_sound (h : s.Sound) (e : Payload) :
    Ensures (s.ipcSendEvent e) fun t => t.Sound ∧ ∀ q, SameReading (s.client q) (t.client q) := by
  obtain ⟨t, ht, hi, -, -, hq⟩ := ipcSendEvent_spec h.toInv e
  rw [ht]
  exact Ensures.ok ⟨h.of_sameReading hi fun q => (hq q).sameReading, fun q => (hq q).sameReading⟩

/-! ### Receiving -/

/-- What a read of `bytes` that returns has done to a client. -/
structure Read (bytes : List UInt8) (c c' : Client) : Prop where
  receiving : c'.Receiving
  received : c'.received = c.received ++ bytes
  lines : 0 ∉ c.unread ++ bytes → c.readBufLen + bytes.length < 2 ^ 16 →
    c'.passed = c.passed ++ commands (c.unread ++ bytes) ∧
    c'.unread = (pieces newline (c.unread ++ bytes)).2
  -- the length has wrapped around to 0
  forgotten : (c.readBufLen + bytes.length) % 2 ^ 16 = 0 →
    c'.passed = c.passed ∧ c'.unread = []

theorem Received.batch {bytes : List UInt8} (hr : Received bytes c c')
    (h0 : 0 ∉ c.unread ++ bytes) (hfits : c.readBufLen + bytes.length < 2 ^ 16) :
    c'.batch = c.unread ++ bytes := by
  have hunread := hr.unread hfits
  rw [Client.batch, Buffer.text_eq_slice (by rw [← Client.unread, hunread]; exact h0),
    ← Client.unread, hunread]

/-- Reading and handling what has been read. -/
theorem Received.handled {bytes : List UInt8} {d : Client} (hr : Received bytes c d)
    (hh : Handled parseRcLine p s t d c') : Read bytes c c' := by
  refine ⟨hh.receiving, hh.received.trans hr.received, fun h0 hfits => ?_, fun hwrap => ?_⟩
  · have hsuffix : (pieces newline (c.unread ++ bytes)).2 <:+ c.unread ++ bytes := pieces_suffix
    rw [hh.passed, hr.passed, hh.unread, hr.batch h0 hfits, hr.unread hfits]
    exact ⟨rfl, (List.suffix_iff_eq_drop.mp hsuffix).symm⟩
  · have hlen : d.readBufLen = 0 := hr.len.trans hwrap
    have hbatch : d.batch = [] := by rw [Client.batch, hlen, Buffer.text]
    have hunread : d.unread = [] := by rw [Client.unread, hlen, Buffer.slice_zero]
    rw [hh.passed, hr.passed, hh.unread, hbatch, hunread]
    exact ⟨List.append_nil _, rfl⟩

/-- A read that delivers something: the client handles what it has then, or is
used after it has been freed. -/
theorem ipcClientHandleReadable_data (parseRcLine : τ → List UInt8 → τ × List Payload)
    (readAvailable : ℕ) (bytes : List UInt8) (h : s.Sound)
    (hc : s.client p = some c) (hne : bytes.take readAvailable ≠ [])
    (hneed : readAvailable + c.readBufLen < 2 ^ 30) :
    ∃ d, receive c readAvailable (bytes.take readAvailable) = .ok d ∧
      Received (bytes.take readAvailable) c d ∧
      (c.writeBufferLen + queuedBytes parseRcLine s.server (commands d.batch) < maxWriteBuffer →
        ∃ t c', ipcClientHandleReadable parseRcLine s p (.data readAvailable bytes) = .ok t ∧
          Handled parseRcLine p (s.setClient p d) t d c') ∧
      (maxWriteBuffer ≤ c.writeBufferLen + queuedBytes parseRcLine s.server (commands d.batch) →
        ipcClientHandleReadable parseRcLine s p (.data readAvailable bytes) =
          .error .undefined) := by
  obtain ⟨d, hd, hrec⟩ := (receive_spec _ _ (h.receiving p c hc) (List.length_take_le _ _)).1 hneed
  have hlen : d.writeBufferLen = c.writeBufferLen := congrArg (·.2.1) hrec.writing
  have hi : (s.setClient p d).Inv := h.toInv.setClient hc ((h.sending p c hc).congr hrec.writing)
  have hspec := ipcClientHandleCommand_spec parseRcLine hi setClient_self
    hrec.receiving
  rw [hlen] at hspec
  refine ⟨d, hd, hrec, ?_⟩
  simp only [ipcClientHandleReadable, hc, nonNull, hd, ok_bind, if_neg hne]
  exact hspec

/-- One read: the client is gone, or it has read something. -/
theorem ipcClientHandleReadable_spec (h : s.Sound) (r : Readable) :
    Ensures (ipcClientHandleReadable parseRcLine s p r) fun t =>
      t.Sound ∧ (∀ q ≠ p, SameReading (s.client q) (t.client q)) ∧
        ∀ c', t.client p = some c' → ∃ readAvailable bytes c, r = .data readAvailable bytes ∧
          s.client p = some c ∧ Read (bytes.take readAvailable) c c' := by
  have hgone : ∀ t : Ipc τ, t = s.ipcClientDisconnect p →
      t.Sound ∧ (∀ q ≠ p, SameReading (s.client q) (t.client q)) ∧
        ∀ c', t.client p = some c' → ∃ readAvailable bytes c, r = .data readAvailable bytes ∧
          s.client p = some c ∧ Read (bytes.take readAvailable) c c' := by
    rintro _ rfl
    refine ⟨h.of_sameReading (h.toInv.disconnect p) (SameReading.disconnect p),
      fun q _ => SameReading.disconnect p q, fun c' hc' => ?_⟩
    rw [disconnect_self] at hc'
    cases hc'
  intro t ht
  rw [ipcClientHandleReadable] at ht
  obtain ⟨c, hc, ht'⟩ := bind_eq_ok.mp ht
  rw [nonNull_eq_ok] at hc
  cases r with
  | hangup => exact hgone t (Except.ok.inj ht').symm
  | data readAvailable bytes =>
    obtain ⟨d, hd, ht'⟩ := bind_eq_ok.mp ht'
    by_cases hne : bytes.take readAvailable = []
    · rw [if_pos hne] at ht'
      exact hgone t (Except.ok.inj ht').symm
    -- the read has returned, so that the capacity did not overflow
    have hneed : readAvailable + c.readBufLen < 2 ^ 30 := by
      by_contra hbig
      rw [(receive_spec _ _ (h.receiving p c hc) (List.length_take_le _ _)).2
        (not_lt.mp hbig)] at hd
      cases hd
    obtain ⟨d, -, hrec, hstay, hfree⟩ :=
      ipcClientHandleReadable_data parseRcLine readAvailable bytes h hc hne hneed
    by_cases hfits : c.writeBufferLen +
        queuedBytes parseRcLine s.server (commands d.batch) < maxWriteBuffer
    · obtain ⟨t, c', ht1, hh⟩ := hstay hfits
      rw [ipcClientHandleReadable, ht] at ht1
      cases ht1
      have hothers : ∀ q ≠ p, SameReading (s.client q) (t.client q) := fun q hq => by
        have hq' := hh.others q hq
        rwa [setClient_of_ne hq] at hq'
      refine ⟨⟨hh.inv, fun q e he => ?_⟩, hothers, fun e he => ?_⟩
      · by_cases hq : q = p
        · subst hq
          rw [hh.client] at he
          cases he
          exact hh.receiving
        · obtain ⟨e', he', hr⟩ := hothers q hq e he
          exact (h.receiving q e' he').congr hr
      · rw [hh.client] at he
        cases he
        exact ⟨readAvailable, bytes, c, rfl, hc, hrec.handled hh⟩
    · have hfault := hfree (not_lt.mp hfits)
      rw [ipcClientHandleReadable, ht] at hfault
      cases hfault

/-! ### Steps -/

/-- A client that has just connected. -/
structure Client.New (events : List Payload) (c : Client) : Prop where
  sending : c.Sending events
  receiving : c.Receiving
  received : c.received = []
  passed : c.passed = []
  unread : c.unread = []

theorem ipcHandleConnection_spec (h : s.Sound) (hp : s.client p = none) :
    (s.ipcHandleConnection p).Sound ∧
      (∃ c, (s.ipcHandleConnection p).client p = some c ∧ c.New s.events) ∧
      ∀ q ≠ p, (s.ipcHandleConnection p).client q = s.client q := by
  have hother : ∀ q ≠ p, (s.ipcHandleConnection p).client q = s.client q :=
    fun q hq => setClient_of_ne hq
  obtain ⟨c, hc, hnew⟩ : ∃ c, (s.ipcHandleConnection p).client p = some c ∧ c.New s.events := by
    refine ⟨_, setClient_self, ⟨?_, le_rfl, by norm_num, ⟨0, by norm_num, rfl⟩, fun _ => rfl⟩,
      ⟨by norm_num, by norm_num, by norm_num, rfl⟩, rfl, rfl, rfl⟩
    simp [Client.pending]
  have hlist : (s.ipcHandleConnection p).clientList = p :: s.clientList := rfl
  refine ⟨⟨⟨⟨?_, fun q => ?_⟩, fun q d hd => ?_⟩, fun q d hd => ?_⟩, ⟨c, hc, hnew⟩, hother⟩
  · rw [hlist, List.nodup_cons]
    refine ⟨fun hmem => ?_, h.nodup⟩
    obtain ⟨d, hd⟩ := (h.mem_iff p).mp hmem
    rw [hp] at hd
    cases hd
  · rw [hlist, List.mem_cons, h.mem_iff]
    by_cases hq : q = p
    · subst hq
      simp [hc]
    · rw [hother q hq]
      simp [hq]
  · by_cases hq : q = p
    · subst hq
      rw [hc] at hd
      cases hd
      exact hnew.sending
    · rw [hother q hq] at hd
      exact h.sending q d hd
  · by_cases hq : q = p
    · subst hq
      rw [hc] at hd
      cases hd
      exact hnew.receiving
    · rw [hother q hq] at hd
      exact h.receiving q d hd

/-- **Every callback keeps the invariant**, and a client that is connected
afterwards is new, has its input as before, or has read something. -/
theorem step_spec (h : s.Sound) (e : Callback τ) :
    Ensures (step parseRcLine s e) fun t => t.Sound ∧ ∀ q c', t.client q = some c' →
      c'.New s.events ∨ (∃ c, s.client q = some c ∧ c'.reading = c.reading) ∨
      ∃ readAvailable bytes c, e = .readable q (.data readAvailable bytes) ∧
        s.client q = some c ∧ Read (bytes.take readAvailable) c c' := by
  cases e with
  | connection p =>
    refine Ensures.deref fun hp => ?_
    obtain ⟨hsound, ⟨c, hc, hnew⟩, hother⟩ :=
      ipcHandleConnection_spec h (Option.isNone_iff_eq_none.mp hp)
    refine Ensures.ok ⟨hsound, fun q c' hc' => ?_⟩
    by_cases hq : q = p
    · subst hq
      rw [hc] at hc'
      cases hc'
      exact .inl hnew
    · rw [hother q hq] at hc'
      exact .inr (.inl ⟨c', hc', rfl⟩)
  | readable p r =>
    refine (ipcClientHandleReadable_spec h r).mono fun t ht => ⟨ht.1, fun q c' hc' => ?_⟩
    by_cases hq : q = p
    · subst hq
      obtain ⟨readAvailable, bytes, c, rfl, hc, hr⟩ := ht.2.2 c' hc'
      exact .inr (.inr ⟨readAvailable, bytes, c, rfl, hc, hr⟩)
    · exact .inr (.inl (ht.2.1 q hq c' hc'))
  | writable p answer =>
    exact (ipcClientHandleWritable_sound h answer).mono fun t ht =>
      ⟨ht.1, fun q c' hc' => .inr (.inl (ht.2 q c' hc'))⟩
  | emit server e =>
    have hs : Sound { s with server := server } :=
      ⟨⟨⟨h.nodup, h.mem_iff⟩, h.sending⟩, h.receiving⟩
    exact (ipcSendEvent_sound hs e).mono fun t ht =>
      ⟨ht.1, fun q c' hc' => .inr (.inl (ht.2 q c' hc'))⟩

theorem Sound.of_steps {ok : Ipc τ → Callback τ → Prop}
    (h : Steps (step parseRcLine) ok (init server) s) : s.Sound :=
  h.invariant (init_sound server) fun _ e ht _ => (step_spec ht e).mono fun _ hu => hu.1

/-! ### What a client is sent -/

/-- **The output of a client.**  In every run, what has been written to the
socket followed by what is in the buffer are the frames of the events since the
client connected; cutting at the `NUL` bytes and dropping the header gives these
events back, and the next event can always be sent, which adds it to the events. -/
theorem ipc_frames (h : Steps (step parseRcLine) (fun _ _ => True) (init server) s)
    (hc : s.client p = some c) :
    c.written ++ c.writeBuffer.slice 0 c.writeBufferLen = frames (s.events.drop c.joined) ∧
    c.writeBufferLen < c.writeBufferSize ∧ c.writeBufferSize ≤ 4000000 ∧
    (0 < c.writeBufferLen → c.writableEventSource = true) ∧
    ((pieces 0 (c.written ++ c.writeBuffer.slice 0 c.writeBufferLen)).1.map (·.drop ipcHeaderSize)
      = (s.events.drop c.joined).map Payload.bytes ∧
      (pieces 0 (c.written ++ c.writeBuffer.slice 0 c.writeBufferLen)).2 = []) ∧
    ∀ e, ∃ t, s.ipcSendEvent e = .ok t ∧ t.events = s.events ++ [e] := by
  have hs := Sound.of_steps h
  have hsend := hs.sending p c hc
  have hqueue : c.written ++ c.writeBuffer.slice 0 c.writeBufferLen =
      frames (s.events.drop c.joined) := hsend.queue
  have hsize : c.writeBufferSize ≤ 2 ^ 21 := hsend.size_le
  refine ⟨hqueue, hsend.len_lt, hsize.trans (by decide), hsend.source, ?_, fun e => ?_⟩
  · rw [hqueue, pieces_frames]
    refine ⟨?_, rfl⟩
    rw [List.map_map]
    refine List.map_congr_left fun e _ => ?_
    show (ipcMagic ++ e.bytes).drop ipcMagic.length = e.bytes
    rw [List.drop_left]
  · obtain ⟨t, ht, -, -, hevents, -⟩ := ipcSendEvent_spec hs.toInv e
    exact ⟨t, ht, hevents⟩

/-- Nothing but the socket: no line emits an event. -/
def quiet : Unit → List UInt8 → Unit × List Payload := fun _ _ => ((), [])

/-- One event is emitted, three bytes of its frame are written, and another
event is emitted. -/
theorem ipc_frames_partial : ∃ (s : Ipc Unit) (c : Client), s.client 0 = some c ∧
    c.written = [99, 103, 45] ∧ s.events.length = 2 ∧
    c.written ++ c.writeBuffer.slice 0 c.writeBufferLen = frames (s.events.drop c.joined) := by
  have hrun : returns (run (step quiet) (init ()) [.connection 0,
      .emit () ⟨[72, 105], by decide, by decide⟩, .writable 0 (.wrote 3),
      .emit () ⟨[33], by decide, by decide⟩]) (fun s => (s.client 0).any (fun c =>
        decide (c.written = [99, 103, 45])) && decide (s.events.length = 2)) = true := by
    decide
  obtain ⟨s, hs, hstate⟩ := exists_of_returns hrun
  rw [Bool.and_eq_true, Option.any_eq_true, decide_eq_true_eq] at hstate
  obtain ⟨⟨c, hc, hw⟩, hev⟩ := hstate
  exact ⟨s, c, hc, of_decide_eq_true hw, hev,
    (ipc_frames (Steps.of_run hs fun _ _ _ => trivial) hc).1⟩

/-! ### What a client passes on -/

/-- A read delivers text, and less than the length of the unread input can
count. -/
def Fits (s : Ipc τ) : Callback τ → Prop
  | .readable p (.data readAvailable bytes) => 0 ∉ bytes.take readAvailable ∧
      ∀ c, s.client p = some c → c.readBufLen + (bytes.take readAvailable).length < 2 ^ 16
  | _ => True

/-- Everything received has been passed on up to the last newline, and the rest
is waiting. -/
structure Client.UpToDate (c : Client) : Prop where
  notMem_zero : 0 ∉ c.received
  passed : c.passed = commands c.received
  unread : c.unread = (pieces newline c.received).2

theorem Client.New.upToDate {events : List Payload} (h : c.New events) : c.UpToDate :=
  ⟨by rw [h.received]; exact List.not_mem_nil, by rw [h.passed, h.received]; rfl,
    by rw [h.unread, h.received]; rfl⟩

theorem Client.UpToDate.congr (h : c.UpToDate) (hr : c'.reading = c.reading) : c'.UpToDate := by
  simp only [Client.reading, Prod.mk.injEq] at hr
  obtain ⟨h1, h2, -, -, h5, h6⟩ := hr
  exact ⟨by rw [h5]; exact h.notMem_zero, by rw [h5, h6]; exact h.passed,
    by rw [Client.unread, h1, h2, h5]; exact h.unread⟩

theorem Client.UpToDate.notMem_append {bytes : List UInt8} (h : c.UpToDate) (h0 : 0 ∉ bytes) :
    0 ∉ c.unread ++ bytes := by
  rw [List.mem_append, not_or, h.unread]
  exact ⟨fun hmem => h.notMem_zero (pieces_suffix.subset hmem), h0⟩

/-- Cutting goes on where it has stopped. -/
theorem Client.UpToDate.read {bytes : List UInt8} (h : c.UpToDate) (hr : Read bytes c c')
    (h0 : 0 ∉ bytes) (hfits : c.readBufLen + bytes.length < 2 ^ 16) : c'.UpToDate := by
  obtain ⟨hpassed, hunread⟩ := hr.lines (h.notMem_append h0) hfits
  have hpieces := @pieces_append UInt8 _ newline c.received bytes
  rw [← h.unread] at hpieces
  refine ⟨?_, ?_, ?_⟩
  · rw [hr.received, List.mem_append, not_or]
    exact ⟨h.notMem_zero, h0⟩
  · rw [hpassed, hr.received, h.passed, commands, commands, commands, hpieces, List.filter_append]
  · rw [hunread, hr.received, hpieces]

/-- The step lemma for the lines. -/
theorem step_upToDate (h : s.Sound) (hup : ∀ p c, s.client p = some c → c.UpToDate)
    {e : Callback τ} (hok : Fits s e) :
    Ensures (step parseRcLine s e) fun t => ∀ p c, t.client p = some c → c.UpToDate := by
  refine (step_spec h e).mono fun t ht p c' hc' => ?_
  obtain hnew | ⟨c, hc, hr⟩ | ⟨readAvailable, bytes, c, rfl, hc, hr⟩ := ht.2 p c' hc'
  · exact hnew.upToDate
  · exact (hup p c hc).congr hr
  · exact (hup p c hc).read hr hok.1 (hok.2 c hc)

/-- **The lines of a client.**  In every run in which no read brings the unread
input to 2^16 bytes, the lines that have been passed on are those of the stream
received, the bytes after the last newline are kept, and the next such read
returns if the events of its lines fit the queue of the client. -/
theorem ipc_lines (h : Steps (step parseRcLine) Fits (init server) s) (hc : s.client p = some c) :
    c.passed = (pieces newline c.received).1.filter isCommand ∧
    c.readBuffer.slice 0 c.readBufLen = (pieces newline c.received).2 ∧
    ∀ readAvailable bytes, Fits s (.readable p (.data readAvailable bytes)) →
      bytes.take readAvailable ≠ [] → readAvailable + c.readBufLen < 2 ^ 30 →
      c.writeBufferLen + queuedBytes parseRcLine s.server
        (commands ((pieces newline c.received).2 ++ bytes.take readAvailable)) < maxWriteBuffer →
      ∃ t, step parseRcLine s (.readable p (.data readAvailable bytes)) = .ok t := by
  have hs := Sound.of_steps h
  have hinv : s.Sound ∧ ∀ p c, s.client p = some c → c.UpToDate :=
    h.invariant ⟨init_sound server, by simp [init]⟩ fun t e ht hok =>
      ((step_spec ht.1 e).mono fun _ hu => hu.1).and (step_upToDate ht.1 ht.2 hok)
  have hup := hinv.2 p c hc
  refine ⟨hup.passed, hup.unread, fun readAvailable bytes hfits hne hneed hqueue => ?_⟩
  obtain ⟨d, -, hrec, hstay, -⟩ :=
    ipcClientHandleReadable_data parseRcLine readAvailable bytes hs hc hne hneed
  rw [hrec.batch (hup.notMem_append hfits.1) (hfits.2 c hc), hup.unread] at hstay
  obtain ⟨t, c', ht, -⟩ := hstay hqueue
  exact ⟨t, ht⟩

/-- A line that arrives in two reads, with a comment begun after it. -/
theorem ipc_lines_split : ∃ (s : Ipc Unit) (c : Client), s.client 0 = some c ∧
    c.received = [110, 111, 112, 10, 35] ∧
    c.passed = (pieces newline c.received).1.filter isCommand ∧
    c.readBuffer.slice 0 c.readBufLen = (pieces newline c.received).2 := by
  have hfirst : returns (step quiet ((init ()).ipcHandleConnection 0)
      (.readable 0 (.data 2 [110, 111]))) (fun s => (s.client 0).any (fun c =>
        decide (c.readBufLen = 2)) && returns (step quiet s (.readable 0 (.data 3 [112, 10, 35])))
          (fun s => (s.client 0).any (fun c => decide (c.received = [110, 111, 112, 10, 35])))) =
      true := by
    decide
  obtain ⟨s1, hs1, hstate⟩ := exists_of_returns hfirst
  rw [Bool.and_eq_true, Option.any_eq_true] at hstate
  obtain ⟨⟨c1, hc1, hlen1⟩, hsecond⟩ := hstate
  obtain ⟨s2, hs2, hstate2⟩ := exists_of_returns hsecond
  obtain ⟨c2, hc2, hrec2⟩ := (Option.any_eq_true _ _).mp hstate2
  have hok1 : Fits ((init ()).ipcHandleConnection 0) (.readable 0 (.data 2 [110, 111])) := by
    refine ⟨by decide, fun c hc => ?_⟩
    obtain rfl := Option.some.inj (setClient_self.symm.trans hc)
    decide
  have hok2 : Fits s1 (.readable 0 (.data 3 [112, 10, 35])) := by
    refine ⟨by decide, fun c hc => ?_⟩
    obtain rfl := Option.some.inj (hc1.symm.trans hc)
    rw [of_decide_eq_true hlen1]
    decide
  have hsteps : Steps (step quiet) Fits (init ()) s2 :=
    ((Steps.refl.tail (e := .connection 0) trivial rfl).tail hok1 hs1).tail hok2 hs2
  obtain ⟨h1, h2, -⟩ := ipc_lines hsteps hc2
  exact ⟨s2, c2, hc2, of_decide_eq_true hrec2, h1, h2⟩

theorem queuedBytes_quiet (ls : List (List UInt8)) : queuedBytes quiet () ls = 0 := by
  have hevents : (execLines quiet () ls).2 = [] := by
    induction ls with
    | nil => rfl
    | cons l ls ih => rw [execLines, quiet, List.nil_append, ih]
  rw [queuedBytes, hevents]
  rfl

/-- Without events a read returns. -/
theorem step_quiet_data {s : Ipc Unit} (bytes : List UInt8) (h : s.Sound)
    (hc : s.client p = some c) (hne : bytes ≠ []) (hneed : bytes.length + c.readBufLen < 2 ^ 30) :
    ∃ t c', step quiet s (.readable p (.data bytes.length bytes)) = .ok t ∧
      t.client p = some c' ∧ Read bytes c c' := by
  have htake : bytes.take bytes.length = bytes := List.take_length
  obtain ⟨d, -, hrec, hstay, -⟩ := ipcClientHandleReadable_data quiet
    bytes.length bytes h hc (by rwa [htake]) hneed
  rw [htake] at hrec
  have hlt := (h.sending p c hc).len_lt.trans_le (h.sending p c hc).size_le
  obtain ⟨t, c', ht, hh⟩ := hstay (by rw [queuedBytes_quiet]; omega)
  exact ⟨t, c', ht, hh.client, hrec.handled hh⟩

/-- Any line of 2^16 bytes is lost: the length of the unread input is 0 again
when it has been read. -/
theorem line_forgotten {line : List UInt8} (hlen : line.length = 2 ^ 16) :
    ∃ (s : Ipc Unit) (c : Client), Steps (step quiet) (fun _ _ => True) (init ()) s ∧
      s.client 0 = some c ∧ c.received = line ++ [newline] ∧ c.passed = [] := by
  have hsteps0 : Steps (step quiet) (fun _ _ => True) (init ()) ((init ()).ipcHandleConnection 0) :=
    Steps.refl.tail (e := .connection 0) trivial rfl
  obtain ⟨-, ⟨c0, hc0, hnew⟩, -⟩ := ipcHandleConnection_spec (init_sound ()) (p := 0) rfl
  have hlen0 : c0.readBufLen = 0 := by rw [← Client.length_unread, hnew.unread]; rfl
  -- the line
  obtain ⟨s1, c1, hs1, hc1, hr1⟩ := step_quiet_data line (Sound.of_steps hsteps0) hc0
    (List.ne_nil_of_length_pos (by rw [hlen]; decide)) (by rw [hlen, hlen0]; decide)
  obtain ⟨hpassed1, hunread1⟩ := hr1.forgotten (by rw [hlen, hlen0]; rfl)
  have hlen1 : c1.readBufLen = 0 := by rw [← Client.length_unread, hunread1]; rfl
  have hsteps1 := hsteps0.tail trivial hs1
  -- the newline
  obtain ⟨s2, c2, hs2, hc2, hr2⟩ := step_quiet_data [newline] (Sound.of_steps hsteps1)
    hc1 (by simp) (by rw [hlen1]; decide)
  obtain ⟨hpassed2, -⟩ := hr2.lines (by rw [hunread1]; decide) (by rw [hlen1]; decide)
  refine ⟨s2, c2, hsteps1.tail trivial hs2, hc2, ?_, ?_⟩
  · rw [hr2.received, hr1.received, hnew.received, List.nil_append]
  · rw [hpassed2, hpassed1, hnew.passed, hunread1]
    rfl

/-- A line of 2^16 times the letter `a`. -/
theorem ipc_lines_lost : ∃ (s : Ipc Unit) (c : Client),
    Steps (step quiet) (fun _ _ => True) (init ()) s ∧ s.client 0 = some c ∧
    c.received = List.replicate (2 ^ 16) 97 ++ [newline] ∧ 0 ∉ c.received ∧ c.passed = [] ∧
    (pieces newline c.received).1.filter isCommand = [List.replicate (2 ^ 16) 97] := by
  have hnl : newline ∉ List.replicate (2 ^ 16) 97 :=
    fun h => absurd (List.eq_of_mem_replicate h) (by decide)
  have h0 : (0 : UInt8) ∉ List.replicate (2 ^ 16) 97 :=
    fun h => absurd (List.eq_of_mem_replicate h) (by decide)
  have hcommand : isCommand (List.replicate (2 ^ 16) 97) = true := by
    show isCommand (List.replicate (65535 + 1) 97) = true
    rw [List.replicate_succ]
    rfl
  obtain ⟨s, c, hs, hc, hreceived, hpassed⟩ := line_forgotten List.length_replicate
  refine ⟨s, c, hs, hc, hreceived, ?_, hpassed, ?_⟩
  · rw [hreceived, List.mem_append, not_or]
    exact ⟨h0, by decide⟩
  · rw [hreceived, pieces_append_cons hnl, List.filter_cons_of_pos hcommand]
    rfl

/-! ### Batches of lines -/

/-- **A batch of lines.**  In every state a run leads to, what a client has read
is handled without touching the client after it has been freed exactly when the
frames of all events the batch emits fit its queue. -/
theorem ipc_batch_iff (h : Steps (step parseRcLine) (fun _ _ => True) (init server) s)
    (hc : s.client p = some c) {readAvailable : ℕ} {bytes : List UInt8}
    (hr : receive c readAvailable (bytes.take readAvailable) = .ok c') :
    ((∃ t, ipcClientHandleCommand parseRcLine (s.setClient p c') p = .ok t) ↔
      c.writeBufferLen + queuedBytes parseRcLine s.server (commands c'.batch) < maxWriteBuffer) ∧
    (ipcClientHandleCommand parseRcLine (s.setClient p c') p = .error .undefined ↔
      maxWriteBuffer ≤
        c.writeBufferLen + queuedBytes parseRcLine s.server (commands c'.batch)) := by
  have hs := Sound.of_steps h
  have hneed : readAvailable + c.readBufLen < 2 ^ 30 := by
    by_contra hbig
    rw [(receive_spec _ _ (hs.receiving p c hc) (List.length_take_le _ _)).2 (not_lt.mp hbig)] at hr
    cases hr
  obtain ⟨d, hd, hrec⟩ := (receive_spec _ _ (hs.receiving p c hc)
    (List.length_take_le _ bytes)).1 hneed
  obtain rfl : d = c' := Except.ok.inj (hd.symm.trans hr)
  have hlen : d.writeBufferLen = c.writeBufferLen := congrArg (·.2.1) hrec.writing
  have hi : (s.setClient p d).Inv := hs.toInv.setClient hc ((hs.sending p c hc).congr hrec.writing)
  obtain ⟨hstay, hfree⟩ := ipcClientHandleCommand_spec parseRcLine hi
    setClient_self hrec.receiving
  rw [hlen] at hstay hfree
  by_cases hfits : c.writeBufferLen +
      queuedBytes parseRcLine s.server (commands d.batch) < maxWriteBuffer
  · obtain ⟨t, c1, ht, -⟩ := hstay hfits
    rw [ht]
    exact ⟨⟨fun _ => hfits, fun _ => ⟨t, rfl⟩⟩, by simp [hfits]⟩
  · rw [hfree (not_lt.mp hfits)]
    exact ⟨by simp [hfits], ⟨fun _ => not_lt.mp hfits, fun _ => rfl⟩⟩

/-- The line `dump`. -/
def dumpLine : List UInt8 := [100, 117, 109, 112]

/-- An event of 500 bytes, which is less than `dump` emits. -/
def dumpEvent : Payload where
  bytes := List.replicate 500 123
  notMem_zero := fun h => absurd (List.eq_of_mem_replicate h) (by decide)
  length_lt := by rw [List.length_replicate]; decide

/-- `dump` emits an event, the other lines do not. -/
def dumps : Unit → List UInt8 → Unit × List Payload := fun _ l =>
  ((), if l = dumpLine then [dumpEvent] else [])

theorem queuedBytes_dumps (n : ℕ) :
    queuedBytes dumps () (List.replicate n dumpLine) = n * 507 := by
  induction n with
  | zero => rfl
  | succ n ih =>
    rw [queuedBytes] at ih
    rw [List.replicate_succ, queuedBytes, execLines, dumps, if_pos rfl, List.singleton_append,
      frames_cons, List.length_append, ih, length_frame, dumpEvent, List.length_replicate,
      ipcHeaderSize, Nat.succ_mul, Nat.add_comm]
    rfl

/-- `n` lines `dump`. -/
def dumpBatch (n : ℕ) : List UInt8 := ((List.replicate n dumpLine).map (· ++ [newline])).flatten

theorem length_dumpBatch (n : ℕ) : (dumpBatch n).length = n * 5 := by
  induction n with
  | zero => rfl
  | succ n ih =>
    rw [dumpBatch] at ih
    rw [dumpBatch, List.replicate_succ, List.map_cons, List.flatten_cons, List.length_append, ih,
      Nat.succ_mul, Nat.add_comm]
    rfl

theorem notMem_dumpBatch (n : ℕ) : 0 ∉ dumpBatch n := by
  rw [dumpBatch, List.map_replicate, List.mem_flatten]
  rintro ⟨l, hl, h0⟩
  rw [List.eq_of_mem_replicate hl] at h0
  exact absurd h0 (by decide)

theorem commands_dumpBatch (n : ℕ) : commands (dumpBatch n) = List.replicate n dumpLine := by
  have hlines : ∀ l ∈ List.replicate n dumpLine, newline ∉ l := fun l hl => by
    rw [List.eq_of_mem_replicate hl]
    decide
  rw [commands, dumpBatch, pieces_flatten hlines]
  exact List.filter_eq_self.mpr fun l hl => by rw [List.eq_of_mem_replicate hl]; rfl

/-- Two lines `dump`, each of which emits an event. -/
theorem ipc_batch_returns : ∃ (c d : Client),
    ((init ()).ipcHandleConnection 0).client 0 = some c ∧
    receive c 10 ((dumpBatch 2).take 10) = .ok d ∧
    queuedBytes dumps () (commands d.batch) = 2 * 507 ∧
    ∃ t, ipcClientHandleCommand dumps (((init ()).ipcHandleConnection 0).setClient 0 d) 0 =
      .ok t := by
  have h0 : Steps (step dumps) (fun _ _ => True) (init ()) ((init ()).ipcHandleConnection 0) :=
    Steps.refl.tail (e := .connection 0) trivial rfl
  obtain ⟨hs, ⟨c, hc, hnew⟩, -⟩ := ipcHandleConnection_spec (init_sound ()) (p := 0) rfl
  have hlen : c.readBufLen = 0 := by rw [← Client.length_unread, hnew.unread]; rfl
  have htake : (dumpBatch 2).take 10 = dumpBatch 2 := by decide
  obtain ⟨d, hd, hrec⟩ := (receive_spec 10 ((dumpBatch 2).take 10)
    (hs.receiving 0 c hc) (by decide)).1 (by rw [hlen]; decide)
  have hbytes : queuedBytes dumps () (commands d.batch) = 2 * 507 := by
    rw [htake] at hrec
    rw [hrec.batch (by rw [hnew.unread]; exact notMem_dumpBatch 2)
      (by rw [hlen, length_dumpBatch]; decide), hnew.unread, List.nil_append,
      commands_dumpBatch, queuedBytes_dumps]
  -- nothing is queued yet
  have hqueue : c.writeBufferLen = 0 := by
    have hnil : c.written ++ c.pending = [] := hnew.sending.queue.trans (by simp [init])
    have hlength : c.pending.length = c.writeBufferLen := Buffer.length_slice
    rw [← hlength, (List.append_eq_nil_iff.mp hnil).2, List.length_nil]
  refine ⟨c, d, hc, hd, hbytes, (ipc_batch_iff h0 hc hd).1.mpr ?_⟩
  show c.writeBufferLen + queuedBytes dumps () (commands d.batch) < maxWriteBuffer
  rw [hbytes, hqueue]
  decide

/-- The client is freed while its input is handled, and used after that. -/
theorem dumpBatch_freed {n : ℕ} (hn : n * 5 < 2 ^ 16) (hqueue : maxWriteBuffer ≤ n * 507) :
    step dumps ((init ()).ipcHandleConnection 0)
      (.readable 0 (.data (n * 5) (dumpBatch n))) = .error .undefined := by
  obtain ⟨hs, ⟨c, hc, hnew⟩, -⟩ := ipcHandleConnection_spec (init_sound ()) (p := 0) rfl
  have hlen : c.readBufLen = 0 := by rw [← Client.length_unread, hnew.unread]; rfl
  have htake : (dumpBatch n).take (n * 5) = dumpBatch n :=
    List.take_of_length_le (length_dumpBatch n).le
  have hne : dumpBatch n ≠ [] := by
    refine List.ne_nil_of_length_pos ?_
    rw [length_dumpBatch]
    have hmax : maxWriteBuffer = 2097152 := by norm_num [maxWriteBuffer]
    omega
  obtain ⟨d, -, hrec, -, hfree⟩ := ipcClientHandleReadable_data dumps
    (n * 5) (dumpBatch n) hs hc (by rwa [htake]) (by rw [hlen]; omega)
  rw [htake] at hrec
  refine hfree ?_
  rw [hrec.batch (by rw [hnew.unread]; exact notMem_dumpBatch n)
    (by rwa [hlen, length_dumpBatch, Nat.zero_add]), hnew.unread, List.nil_append,
    commands_dumpBatch]
  show maxWriteBuffer ≤ c.writeBufferLen + queuedBytes dumps () (List.replicate n dumpLine)
  rw [queuedBytes_dumps]
  exact le_add_left hqueue

/-- 5000 lines `dump` in one read. -/
theorem ipc_batch_freed :
    Steps (step dumps) (fun _ _ => True) (init ()) ((init ()).ipcHandleConnection 0) ∧
    step dumps ((init ()).ipcHandleConnection 0) (.readable 0 (.data (5000 * 5) (dumpBatch 5000)))
      = .error .undefined :=
  ⟨Steps.refl.tail (e := .connection 0) trivial rfl,
    dumpBatch_freed (by decide) (by decide)⟩

end Ipc

end Cagebreak
