/-
The output queue of an IPC client.

`Client.Sending` says what `write_buffer` holds: the bytes of the frames of all
events since the client connected, less those already written.  Every operation
on the socket keeps it.

* `ipcSendEventClient_spec` — one event is queued, or the client is too far
  behind and goes;
* `ipcSendEvent_spec` — the loop over all clients, `execLine_spec` — the events
  of a line.
-/
import Cagebreak.Ipc

namespace Cagebreak

namespace Ipc

open Exec

variable {τ : Type} {s t : Ipc τ} {p q : ClientPtr} {c c' : Client} {e : Payload}
  {es events : List Payload} {o o' o'' : Option Client} {m n : ℕ}

/-- The bytes a client receives for an event. -/
def frame (e : Payload) : List UInt8 := ipcMagic ++ e.bytes ++ [0]

def frames (es : List Payload) : List UInt8 := (es.map frame).flatten

theorem length_frame : (frame e).length = ipcHeaderSize + e.bytes.length + 1 := by
  rw [frame, List.length_append, List.length_append, ipcHeaderSize, List.length_singleton]

@[simp] theorem frames_nil : frames [] = [] := rfl

@[simp] theorem frames_cons : frames (e :: es) = frame e ++ frames es := by simp [frames]

theorem frames_concat : frames (es ++ [e]) = frames es ++ frame e := by simp [frames]

/-- Cutting a stream of frames at the `NUL` bytes gives the events back. -/
theorem pieces_frames : pieces 0 (frames es) = (es.map fun e => ipcMagic ++ e.bytes, []) := by
  have hframes : frames es = ((es.map fun e => ipcMagic ++ e.bytes).map (· ++ [0])).flatten := by
    rw [List.map_map]
    rfl
  rw [hframes]
  refine pieces_flatten fun l hl => ?_
  obtain ⟨e, -, rfl⟩ := List.mem_map.mp hl
  rw [List.mem_append, not_or]
  exact ⟨by decide, e.notMem_zero⟩

/-- The write buffer never grows beyond this. -/
def maxWriteBuffer : ℕ := 2 ^ 21

/-- What has been queued for a client and not been written. -/
def Client.pending (c : Client) : List UInt8 := c.writeBuffer.slice 0 c.writeBufferLen

/-- What a client knows of its input. -/
def Client.reading (c : Client) : Buffer × ℕ × ℕ × Bool × List UInt8 × List (List UInt8) :=
  (c.readBuffer, c.readBufLen, c.readBufCap, c.readDiscard, c.received, c.passed)

/-- What a client knows of its output. -/
def Client.writing (c : Client) : Buffer × ℕ × ℕ × Bool × List UInt8 × ℕ :=
  (c.writeBuffer, c.writeBufferLen, c.writeBufferSize, c.writableEventSource, c.written, c.joined)

/-- **The queue of a client**, after the given events. -/
structure Client.Sending (events : List Payload) (c : Client) : Prop where
  queue : c.written ++ c.pending = frames (events.drop c.joined)
  joined_le : c.joined ≤ events.length
  len_lt : c.writeBufferLen < c.writeBufferSize
  size : ∃ k ≤ 14, c.writeBufferSize = 128 * 2 ^ k
  source : 0 < c.writeBufferLen → c.writableEventSource = true

theorem Client.Sending.congr (h : c.Sending events) (hw : c'.writing = c.writing) :
    c'.Sending events := by
  simp only [Client.writing, Prod.mk.injEq] at hw
  obtain ⟨h1, h2, h3, h4, h5, h6⟩ := hw
  constructor
  · rw [Client.pending, h1, h2, h5, h6]
    exact h.queue
  · rw [h6]
    exact h.joined_le
  · rw [h2, h3]
    exact h.len_lt
  · rw [h3]
    exact h.size
  · rw [h2, h4]
    exact h.source

theorem Client.Sending.size_le (h : c.Sending events) : c.writeBufferSize ≤ maxWriteBuffer := by
  obtain ⟨k, hk, hsize⟩ := h.size
  rw [hsize]
  calc 128 * 2 ^ k ≤ 128 * 2 ^ 14 := Nat.mul_le_mul_left _ (Nat.pow_le_pow_right (by norm_num) hk)
    _ = maxWriteBuffer := by norm_num [maxWriteBuffer]

/-! ### One event for one client -/

/-- The size the loop of `ipc_send_event_client` ends with is acceptable exactly
when the buffer of 2^21 bytes is large enough. -/
theorem doubleUntil_writeBuffer {k : ℕ} (need : ℕ) (hk : k ≤ 14) :
    ∃ j, doubleUntil (need + 1) need (128 * 2 ^ k) = .ok (128 * 2 ^ j) ∧ need < 128 * 2 ^ j ∧
      (need < maxWriteBuffer ↔ j ≤ 14) := by
  have hpos : 1 ≤ 128 * 2 ^ k := Nat.mul_pos (by norm_num) (Nat.two_pow_pos k)
  have hneed : need < 128 * 2 ^ k + need := Nat.lt_add_of_pos_left hpos
  obtain ⟨i, h1, h2, h3⟩ := doubleUntil_spec hpos hneed
  have hmul : ∀ i, 128 * 2 ^ k * 2 ^ i = 128 * 2 ^ (k + i) := fun i => by rw [pow_add, mul_assoc]
  rw [hmul] at h1 h2
  refine ⟨k + i, h1, h2, fun hneed => ?_, fun hj => ?_⟩
  · -- a doubling too many would have started from at least 2^21
    by_contra hki
    have hi : 0 < i := by omega
    have hle := h3 (i - 1) (by omega)
    rw [hmul] at hle
    have hpow : 2 ^ 14 ≤ 2 ^ (k + (i - 1)) := Nat.pow_le_pow_right (by norm_num) (by omega)
    rw [maxWriteBuffer] at hneed
    omega
  · have hpow : 2 ^ (k + i) ≤ 2 ^ 14 := Nat.pow_le_pow_right (by norm_num) hj
    rw [maxWriteBuffer]
    omega

/-- Sending returns.  The client stays while its queue fits 2^21 bytes. -/
theorem ipcSendEventClient_spec (h : c.Sending events) :
    (c.writeBufferLen + (frame e).length < maxWriteBuffer →
      ∃ c', ipcSendEventClient { c with writableEventSource := true } e = .ok (some c') ∧
        c'.Sending (events ++ [e]) ∧ c'.reading = c.reading ∧
        c'.writeBufferLen = c.writeBufferLen + (frame e).length) ∧
    (maxWriteBuffer ≤ c.writeBufferLen + (frame e).length →
      ipcSendEventClient { c with writableEventSource := true } e = .ok none) := by
  obtain ⟨k, hk, hsize⟩ := h.size
  have hmod : e.bytes.length % 2 ^ 32 = e.bytes.length :=
    Nat.mod_eq_of_lt (e.length_lt.trans (by decide))
  have hneed : c.writeBufferLen + (frame e).length =
      c.writeBufferLen + ipcHeaderSize + e.bytes.length + 1 := by
    rw [length_frame]
    omega
  obtain ⟨j, hdouble, hlt, hiff⟩ :=
    doubleUntil_writeBuffer (c.writeBufferLen + ipcHeaderSize + e.bytes.length + 1) hk
  simp only [ipcSendEventClient, hmod, hsize, hdouble, ok_bind, hneed, List.take_length]
  constructor
  · intro hfits
    have hj := hiff.mp hfits
    have hpow : 2 ^ j ≤ 2 ^ 14 := Nat.pow_le_pow_right (by norm_num) hj
    rw [if_neg (by omega)]
    refine ⟨_, rfl, ?_, rfl, rfl⟩
    have hdrop : (events ++ [e]).drop c.joined = events.drop c.joined ++ [e] := by
      rw [List.drop_append_of_le_length h.joined_le]
    constructor
    · simp only [Client.pending]
      rw [Buffer.slice_blit_append (k := 1) rfl, Buffer.slice_blit_append (k := e.bytes.length) rfl,
        Buffer.slice_blit_append (k := ipcHeaderSize) rfl, hdrop, frames_concat, ← h.queue,
        Client.pending, frame]
      simp only [List.append_assoc]
    · rw [List.length_append]
      exact h.joined_le.trans (Nat.le_add_right _ _)
    · exact hlt
    · exact ⟨j, hj, rfl⟩
    · exact fun _ => rfl
  · intro hbig
    have hj : ¬ j ≤ 14 := fun hj => absurd (hiff.mpr hj) (by omega)
    have hpow : 2 ^ 15 ≤ 2 ^ j := Nat.pow_le_pow_right (by norm_num) (by omega)
    rw [if_pos (by omega)]

/-! ### The loop over the clients -/

/-- The list holds the connected clients, each once. -/
structure Linked (s : Ipc τ) : Prop where
  nodup : s.clientList.Nodup
  mem_iff : ∀ p, p ∈ s.clientList ↔ ∃ c, s.client p = some c

/-- **The invariant of the sending side**: every connected client has its queue. -/
structure Inv (s : Ipc τ) : Prop extends Linked s where
  sending : ∀ p c, s.client p = some c → c.Sending s.events

@[simp] theorem setClient_self : (s.setClient p c).client p = some c := Function.update_self ..

theorem setClient_of_ne (h : q ≠ p) : (s.setClient p c).client q = s.client q :=
  Function.update_of_ne h ..

@[simp] theorem disconnect_self : (s.ipcClientDisconnect p).client p = none :=
  Function.update_self ..

theorem disconnect_of_ne (h : q ≠ p) : (s.ipcClientDisconnect p).client q = s.client q :=
  Function.update_of_ne h ..

theorem Linked.setClient (h : s.Linked) (hc : s.client p = some c) : (s.setClient p c').Linked := by
  refine ⟨h.nodup, fun q => ?_⟩
  show q ∈ s.clientList ↔ _
  rw [h.mem_iff]
  by_cases hq : q = p
  · subst hq
    simp [hc]
  · rw [setClient_of_ne hq]

theorem Linked.disconnect (h : s.Linked) (p : ClientPtr) : (s.ipcClientDisconnect p).Linked := by
  refine ⟨h.nodup.erase p, fun q => ?_⟩
  show q ∈ s.clientList.erase p ↔ _
  rw [h.nodup.mem_erase_iff]
  by_cases hq : q = p
  · subst hq
    simp
  · rw [disconnect_of_ne hq, h.mem_iff]
    exact ⟨And.right, fun h => ⟨hq, h⟩⟩

/-- What queueing `n` bytes makes of a client. -/
def Queued (n : ℕ) : Option Client → Option Client → Prop
  | none, o' => o' = none
  | some c, o' =>
    (c.writeBufferLen + n < maxWriteBuffer →
      ∃ c', o' = some c' ∧ c'.reading = c.reading ∧ c'.writeBufferLen = c.writeBufferLen + n) ∧
    (maxWriteBuffer ≤ c.writeBufferLen + n → o' = none)

theorem Queued.trans (h : Queued m o o') (h' : Queued n o' o'') : Queued (m + n) o o'' := by
  cases o with
  | none =>
    obtain rfl : o' = none := h
    exact h'
  | some c =>
    constructor
    · intro hfits
      obtain ⟨c1, rfl, hr, hl⟩ := h.1 (by omega)
      obtain ⟨c2, rfl, hr', hl'⟩ := h'.1 (by omega)
      exact ⟨c2, rfl, hr'.trans hr, by omega⟩
    · intro hbig
      by_cases hm : c.writeBufferLen + m < maxWriteBuffer
      · obtain ⟨c1, rfl, -, hl⟩ := h.1 hm
        exact h'.2 (by omega)
      · obtain rfl := h.2 (by omega)
        exact h'

/-- Nothing is queued. -/
theorem Inv.queued_zero (h : s.Inv) (p : ClientPtr) : Queued 0 (s.client p) (s.client p) := by
  cases hc : s.client p with
  | none => rfl
  | some c =>
    have hlt := (h.sending p c hc).len_lt.trans_le (h.sending p c hc).size_le
    exact ⟨fun _ => ⟨c, rfl, rfl, rfl⟩, fun hbig => absurd hlt (by omega)⟩

/-- A client that keeps its queue may be changed. -/
theorem Inv.setClient (h : s.Inv) (hc : s.client p = some c) (hw : c'.Sending s.events) :
    (s.setClient p c').Inv := by
  refine ⟨h.toLinked.setClient hc, fun q d hd => ?_⟩
  by_cases hq : q = p
  · subst hq
    rw [setClient_self] at hd
    cases hd
    exact hw
  · rw [setClient_of_ne hq] at hd
    exact h.sending q d hd

theorem Inv.disconnect (h : s.Inv) (p : ClientPtr) : (s.ipcClientDisconnect p).Inv := by
  refine ⟨h.toLinked.disconnect p, fun q d hd => ?_⟩
  by_cases hq : q = p
  · subst hq
    rw [disconnect_self] at hd
    cases hd
  · rw [disconnect_of_ne hq] at hd
    exact h.sending q d hd

/-- One round of the loop concerns one client. -/
theorem sendTo_spec (h : s.Linked) (hc : s.client p = some c) (hs : c.Sending events) :
    ∃ t, sendTo e s p = .ok t ∧ t.Linked ∧ t.server = s.server ∧ t.events = s.events ∧
      (∀ q ≠ p, t.client q = s.client q) ∧
      Queued (frame e).length (s.client p) (t.client p) ∧
      ∀ c', t.client p = some c' → c'.Sending (events ++ [e]) := by
  obtain ⟨hfits, hbig⟩ := ipcSendEventClient_spec (e := e) hs
  rw [sendTo, hc, nonNull, ok_bind]
  by_cases hn : c.writeBufferLen + (frame e).length < maxWriteBuffer
  · obtain ⟨c1, h1, hs1, hr, hl⟩ := hfits hn
    rw [h1, ok_bind]
    refine ⟨_, rfl, h.setClient hc, rfl, rfl, fun q hq => setClient_of_ne hq, ?_, ?_⟩
    · rw [setClient_self]
      exact ⟨fun _ => ⟨c1, rfl, hr, hl⟩, fun hge => absurd hn (by omega)⟩
    · intro c' hc'
      rw [setClient_self] at hc'
      cases hc'
      exact hs1
  · rw [hbig (by omega), ok_bind]
    refine ⟨_, rfl, h.disconnect p, rfl, rfl, fun q hq => disconnect_of_ne hq, ?_, ?_⟩
    · rw [disconnect_self]
      exact ⟨fun hlt => absurd hlt hn, fun _ => rfl⟩
    · intro c' hc'
      rw [disconnect_self] at hc'
      cases hc'

/-- The loop over distinct clients. -/
theorem sendTo_foldlM {l : List ClientPtr} (hl : l.Nodup) (h : s.Linked)
    (hs : ∀ p ∈ l, ∃ c, s.client p = some c ∧ c.Sending events) :
    ∃ t, l.foldlM (sendTo e) s = .ok t ∧ t.Linked ∧ t.server = s.server ∧ t.events = s.events ∧
      (∀ p ∉ l, t.client p = s.client p) ∧
      ∀ p ∈ l, Queued (frame e).length (s.client p) (t.client p) ∧
        ∀ c', t.client p = some c' → c'.Sending (events ++ [e]) := by
  induction l generalizing s with
  | nil => exact ⟨s, rfl, h, rfl, rfl, fun _ _ => rfl, by simp⟩
  | cons p l ih =>
    obtain ⟨hp, hl⟩ := List.nodup_cons.mp hl
    obtain ⟨c, hc, hsc⟩ := hs p List.mem_cons_self
    obtain ⟨u, hu, hlu, hsu, heu, hou, hqu, hcu⟩ := sendTo_spec (e := e) h hc hsc
    have hne : ∀ q ∈ l, q ≠ p := fun q hq hqp => hp (hqp ▸ hq)
    have hsl : ∀ q ∈ l, ∃ c, u.client q = some c ∧ c.Sending events := fun q hq => by
      rw [hou q (hne q hq)]
      exact hs q (List.mem_cons_of_mem _ hq)
    obtain ⟨t, ht, hlt, hst, het, hot, hint⟩ := ih hl hlu hsl
    rw [List.foldlM_cons, hu, ok_bind]
    refine ⟨t, ht, hlt, hst.trans hsu, het.trans heu, fun q hq => ?_, fun q hq => ?_⟩
    · rw [List.mem_cons, not_or] at hq
      rw [hot q hq.2, hou q hq.1]
    · obtain rfl | hq := List.mem_cons.mp hq
      · rw [hot q hp]
        exact ⟨hqu, hcu⟩
      · rw [← hou q (hne q hq)]
        exact hint q hq

/-- **An event reaches every connected client**, or the client goes. -/
theorem ipcSendEvent_spec (h : s.Inv) (e : Payload) :
    ∃ t, s.ipcSendEvent e = .ok t ∧ t.Inv ∧ t.server = s.server ∧ t.events = s.events ++ [e] ∧
      ∀ p, Queued (frame e).length (s.client p) (t.client p) := by
  have hlink : Linked { s with events := s.events ++ [e] } := ⟨h.nodup, h.mem_iff⟩
  obtain ⟨t, ht, hl, hserver, hevents, hout, hin⟩ := sendTo_foldlM (e := e) h.nodup hlink
    fun p hp => by
      obtain ⟨c, hc⟩ := (h.mem_iff p).mp hp
      exact ⟨c, hc, h.sending p c hc⟩
  have hnone : ∀ p ∉ s.clientList, s.client p = none := fun p hp => by
    cases hc : s.client p with
    | none => rfl
    | some c => exact absurd ((h.mem_iff p).mpr ⟨c, hc⟩) hp
  refine ⟨t, ht, ⟨hl, fun p c hc => ?_⟩, hserver, hevents, fun p => ?_⟩
  · rw [hevents]
    by_cases hp : p ∈ s.clientList
    · exact (hin p hp).2 c hc
    · rw [hout p hp] at hc
      exact absurd ((h.mem_iff p).mpr ⟨c, hc⟩) hp
  · by_cases hp : p ∈ s.clientList
    · exact (hin p hp).1
    · rw [hout p hp]
      show Queued _ (s.client p) (s.client p)
      rw [hnone p hp]
      rfl

/-! ### The events of a line -/

theorem foldlM_ipcSendEvent (es : List Payload) (h : s.Inv) :
    ∃ t, es.foldlM ipcSendEvent s = .ok t ∧ t.Inv ∧ t.server = s.server ∧
      t.events = s.events ++ es ∧
      ∀ p, Queued (frames es).length (s.client p) (t.client p) := by
  induction es generalizing s with
  | nil => exact ⟨s, rfl, h, rfl, (List.append_nil _).symm, h.queued_zero⟩
  | cons e es ih =>
    obtain ⟨u, hu, hiu, hsu, heu, hqu⟩ := ipcSendEvent_spec h e
    obtain ⟨t, ht, hit, hst, het, hqt⟩ := ih hiu
    rw [List.foldlM_cons, hu, ok_bind]
    refine ⟨t, ht, hit, hst.trans hsu, ?_, fun p => ?_⟩
    · rw [het, heu, List.append_assoc, List.singleton_append]
    · rw [frames_cons, List.length_append]
      exact (hqu p).trans (hqt p)

variable (parseRcLine : τ → List UInt8 → τ × List Payload)

/-- Executing a line returns, whatever its events do to the clients. -/
theorem execLine_spec (h : s.Inv) (line : List UInt8) :
    ∃ t, execLine parseRcLine s line = .ok t ∧ t.Inv ∧
      t.server = (parseRcLine s.server line).1 ∧
      ∀ p, Queued (frames (parseRcLine s.server line).2).length (s.client p) (t.client p) := by
  have hs : Inv { s with server := (parseRcLine s.server line).1 } :=
    ⟨⟨h.nodup, h.mem_iff⟩, h.sending⟩
  obtain ⟨t, ht, hi, hserver, -, hq⟩ := foldlM_ipcSendEvent (parseRcLine s.server line).2 hs
  exact ⟨t, ht, hi, hserver, hq⟩

end Ipc

end Cagebreak
