/-
The lines an IPC client sends.

`ipc_client_handle_command` cuts what is buffered at the newlines.  Executing a
line emits events, and the client that sent it receives them as well: it may be
freed while its own input is handled.

* `commandLoop_spec` — the loop, by induction on the text that is left;
* `ipcClientHandleCommand_spec` — all complete lines are passed on and the rest
  is moved to the front, or the client is used after it has been freed;
* `receive_spec` — what a read does to the buffer.
-/
import Cagebreak.IpcQueue

namespace Cagebreak

namespace Ipc

open Exec

variable {τ : Type} {s t u : Ipc τ} {p q : ClientPtr} {c c' c'' : Client}
  {o o' o'' : Option Client} {n offset : ℕ} {text l : List UInt8} {ls ls' : List (List UInt8)}
  {parseRcLine : τ → List UInt8 → τ × List Payload}

/-- The lines of a text that are passed on. -/
def commands (text : List UInt8) : List (List UInt8) :=
  (pieces newline text).1.filter isCommand

/-- Some lines, executed in order: the state they lead to and the events they
emit. -/
def execLines (parseRcLine : τ → List UInt8 → τ × List Payload) (server : τ) :
    List (List UInt8) → τ × List Payload
  | [] => (server, [])
  | l :: ls =>
    ((execLines parseRcLine (parseRcLine server l).1 ls).1,
      (parseRcLine server l).2 ++ (execLines parseRcLine (parseRcLine server l).1 ls).2)

theorem execLines_append (server : τ) : execLines parseRcLine server (ls ++ ls') =
    ((execLines parseRcLine (execLines parseRcLine server ls).1 ls').1,
      (execLines parseRcLine server ls).2 ++
        (execLines parseRcLine (execLines parseRcLine server ls).1 ls').2) := by
  induction ls generalizing server with
  | nil => rfl
  | cons l ls ih => rw [List.cons_append, execLines, ih, execLines, List.append_assoc]

/-- The bytes queued for every client while some lines are executed. -/
def queuedBytes (parseRcLine : τ → List UInt8 → τ × List Payload) (server : τ)
    (ls : List (List UInt8)) : ℕ :=
  (frames (execLines parseRcLine server ls).2).length

theorem queuedBytes_append (server : τ) : queuedBytes parseRcLine server (ls ++ ls') =
    queuedBytes parseRcLine server ls +
      queuedBytes parseRcLine (execLines parseRcLine server ls).1 ls' := by
  rw [queuedBytes, execLines_append]
  simp [queuedBytes, frames]

/-- A client that is still connected has its input as before. -/
def SameReading (o o' : Option Client) : Prop :=
  ∀ c', o' = some c' → ∃ c, o = some c ∧ c'.reading = c.reading

theorem SameReading.refl : SameReading o o := fun c hc => ⟨c, hc, rfl⟩

theorem SameReading.trans (h : SameReading o o') (h' : SameReading o' o'') :
    SameReading o o'' := by
  intro c'' hc''
  obtain ⟨c', hc', hr'⟩ := h' c'' hc''
  obtain ⟨c, hc, hr⟩ := h c' hc'
  exact ⟨c, hc, hr'.trans hr⟩

theorem Queued.sameReading (h : Queued n o o') : SameReading o o' := by
  intro c' hc'
  cases o with
  | none =>
    obtain rfl : o' = none := h
    cases hc'
  | some c =>
    by_cases hn : c.writeBufferLen + n < maxWriteBuffer
    · obtain ⟨d, rfl, hr, -⟩ := h.1 hn
      cases hc'
      exact ⟨c, rfl, hr⟩
    · obtain rfl := h.2 (by omega)
      cases hc'

/-! ### The loop over the lines -/

/-- What the loop has done when it is at `offset`: `ls` have been passed on, and
what follows in the buffer is as it was. -/
structure PassedOn (parseRcLine : τ → List UInt8 → τ × List Payload) (p : ClientPtr)
    (ls : List (List UInt8)) (offset : ℕ) (s t : Ipc τ) (c c' : Client) : Prop where
  inv : t.Inv
  server : t.server = (execLines parseRcLine s.server ls).1
  client : t.client p = some c'
  len : c'.readBufLen = c.readBufLen
  cap : c'.readBufCap = c.readBufCap
  discard : c'.readDiscard = c.readDiscard
  received : c'.received = c.received
  passed : c'.passed = c.passed ++ ls
  writeLen : c'.writeBufferLen = c.writeBufferLen + queuedBytes parseRcLine s.server ls
  rest : ∀ i, offset ≤ i → c'.readBuffer i = c.readBuffer i
  others : ∀ q ≠ p, SameReading (s.client q) (t.client q)

theorem PassedOn.trans {m : ℕ} (h : PassedOn parseRcLine p ls m s t c c')
    (h' : PassedOn parseRcLine p ls' n t u c' c'') (hmn : m ≤ n) :
    PassedOn parseRcLine p (ls ++ ls') n s u c c'' where
  inv := h'.inv
  server := by rw [h'.server, h.server, execLines_append]
  client := h'.client
  len := h'.len.trans h.len
  cap := h'.cap.trans h.cap
  discard := h'.discard.trans h.discard
  received := h'.received.trans h.received
  passed := by rw [h'.passed, h.passed, List.append_assoc]
  writeLen := by rw [h'.writeLen, h.writeLen, queuedBytes_append, h.server, Nat.add_assoc]
  rest i hi := (h'.rest i hi).trans (h.rest i (hmn.trans hi))
  others q hq := (h.others q hq).trans (h'.others q hq)

/-- One line.  The client is freed when the events of the line do not fit its
queue. -/
theorem handleLine_spec (parseRcLine : τ → List UInt8 → τ × List Payload) (h : s.Inv)
    (hc : s.client p = some c) (hd : c.readDiscard = false)
    (hl : c.readBuffer.slice offset l.length = l) (h0 : 0 ∉ l)
    (hcap : offset + l.length < c.readBufCap) :
    (c.writeBufferLen + queuedBytes parseRcLine s.server ([l].filter isCommand) < maxWriteBuffer →
      ∃ t c', handleLine parseRcLine p s c offset (offset + l.length) = .ok t ∧
        PassedOn parseRcLine p ([l].filter isCommand) (offset + l.length + 1) s t c c') ∧
    (maxWriteBuffer ≤ c.writeBufferLen + queuedBytes parseRcLine s.server ([l].filter isCommand) →
      ∃ t, handleLine parseRcLine p s c offset (offset + l.length) = .ok t ∧
        t.client p = none) := by
  have hslice : Buffer.slice (Function.update c.readBuffer (offset + l.length) 0) offset l.length
      = l := by
    rw [Buffer.slice_update_of_le le_rfl, hl]
  have hline : Buffer.cString (Function.update c.readBuffer (offset + l.length) 0)
      (c.readBufCap - offset) offset = .ok l :=
    Buffer.cString_slice hslice (Function.update_self ..) h0 (by omega)
  have hrest : ∀ i, offset + l.length + 1 ≤ i →
      Function.update c.readBuffer (offset + l.length) 0 i = c.readBuffer i := fun i hi => by
    have hne : i ≠ offset + l.length := by omega
    rw [Function.update_of_ne hne]
  have hsend := h.sending p c hc
  rw [handleLine, if_neg (by simp [hd])]
  simp only [hline, ok_bind]
  by_cases hcmd : isCommand l = true
  · rw [if_pos hcmd, List.filter_cons_of_pos hcmd, List.filter_nil]
    have hq1 : queuedBytes parseRcLine s.server [l] =
        (frames (parseRcLine s.server l).2).length := by
      simp [queuedBytes, execLines]
    have hset : (s.setClient p { c with
        readBuffer := Function.update c.readBuffer (offset + l.length) 0
        passed := c.passed ++ [l] }).Inv := h.setClient hc (hsend.congr rfl)
    obtain ⟨t, ht, hi, hserver, hq⟩ := execLine_spec parseRcLine hset l
    have hqp := hq p
    rw [setClient_self] at hqp
    rw [ht]
    constructor
    · intro hfits
      obtain ⟨c', hc', hr, hlen⟩ := hqp.1 (by rw [hq1] at hfits; exact hfits)
      simp only [Client.reading, Prod.mk.injEq] at hr
      obtain ⟨h1, h2, h3, h4, h5, h6⟩ := hr
      refine ⟨t, c', rfl, hi, hserver, hc', h2, h3, h4, h5, h6, ?_, fun i hi => ?_,
        fun q hqp => ?_⟩
      · rw [hlen, hq1]
        rfl
      · rw [h1]
        exact hrest i hi
      · have hs := (hq q).sameReading
        rwa [setClient_of_ne hqp] at hs
    · intro hbig
      exact ⟨t, rfl, hqp.2 (by rw [hq1] at hbig; exact hbig)⟩
  · rw [if_neg hcmd, List.filter_cons_of_neg hcmd, List.filter_nil]
    have hq0 : queuedBytes parseRcLine s.server [] = 0 := rfl
    constructor
    · intro _
      refine ⟨_, _, rfl, h.setClient hc (hsend.congr rfl), rfl, setClient_self, rfl, rfl, rfl, rfl,
        (List.append_nil _).symm, rfl, hrest, fun q hqp => ?_⟩
      rw [setClient_of_ne hqp]
      exact SameReading.refl
    -- nothing is sent, and the queue had room before
    · intro hbig
      have hlt := hsend.len_lt.trans_le hsend.size_le
      exact absurd hlt (by omega)

/-- **The loop.**  It passes on the lines of the text that is left, or uses the
client after it has been freed. -/
theorem commandLoop_spec (parseRcLine : τ → List UInt8 → τ × List Payload) (h : s.Inv)
    (hc : s.client p = some c) (hd : c.readDiscard = false)
    (htext : c.readBuffer.slice offset text.length = text)
    (hend : c.readBuffer (offset + text.length) = 0) (h0 : 0 ∉ text)
    (hcap : offset + text.length < c.readBufCap) (hn : text.length < n) :
    (c.writeBufferLen + queuedBytes parseRcLine s.server (commands text) < maxWriteBuffer →
      ∃ t c', commandLoop parseRcLine p n s offset =
          .ok (t, offset + (text.length - (pieces newline text).2.length)) ∧
        PassedOn parseRcLine p (commands text)
          (offset + (text.length - (pieces newline text).2.length)) s t c c') ∧
    (maxWriteBuffer ≤ c.writeBufferLen + queuedBytes parseRcLine s.server (commands text) →
      commandLoop parseRcLine p n s offset = .error .undefined) := by
  induction n generalizing s c offset text with
  | zero => omega
  | succ n ih =>
    have hsend := h.sending p c hc
    have hlt := hsend.len_lt.trans_le hsend.size_le
    rw [commandLoop, hc, nonNull, ok_bind]
    by_cases hnl : newline ∈ text
    · -- the first line, and what follows it
      obtain ⟨l, text, rfl, hl⟩ := List.eq_append_cons_of_mem hnl
      rw [List.mem_append, List.mem_cons, not_or, not_or] at h0
      obtain ⟨h0l, -, h0t⟩ := h0
      have hlen : (l ++ newline :: text).length = l.length + 1 + text.length := by
        simp only [List.length_append, List.length_cons]
        omega
      rw [hlen] at htext hend hcap hn
      rw [Buffer.strchr_of_append htext h0l hl (by omega), ok_bind, ifSome_some]
      have hcommands : commands (l ++ newline :: text) = [l].filter isCommand ++ commands text := by
        rw [commands, commands, pieces_append_cons hl, ← List.filter_append, List.singleton_append]
      have hpieces : (pieces newline (l ++ newline :: text)).2 = (pieces newline text).2 := by
        rw [pieces_append_cons hl]
      have hrest : (pieces newline text).2.length ≤ text.length := pieces_suffix.length_le
      have hoff : offset + (l.length + 1 + text.length - (pieces newline text).2.length) =
          offset + l.length + 1 + (text.length - (pieces newline text).2.length) := by omega
      rw [hcommands, hpieces, hlen, hoff, queuedBytes_append]
      rw [Buffer.slice_add, Buffer.slice_add] at htext
      have hsl : c.readBuffer.slice offset l.length = l ∧
          c.readBuffer.slice (offset + (l.length + 1)) text.length = text := by
        rw [List.append_assoc] at htext
        obtain ⟨h1, h2⟩ := List.append_inj htext (by simp)
        exact ⟨h1, (List.cons.inj h2).2⟩
      obtain ⟨hstay, hgone⟩ := handleLine_spec parseRcLine h hc hd hsl.1 h0l
        (by omega)
      -- the loop goes on with the rest of the text
      have hnext := fun t c1 (hp : PassedOn parseRcLine p ([l].filter isCommand)
          (offset + l.length + 1) s t c c1) =>
        @ih t c1 (offset + l.length + 1) text hp.inv hp.client (hp.discard.trans hd)
          (by rw [Buffer.slice_congr fun i hi _ => hp.rest i hi]; exact hsl.2)
          (by rw [hp.rest _ (by omega), ← hend]; congr 1; omega) h0t
          (by rw [hp.cap]; omega) (by omega)
      constructor
      · intro hfits
        obtain ⟨t, c1, ht, hp⟩ := hstay (by omega)
        obtain ⟨u, c2, hu, hp'⟩ := (hnext t c1 hp).1 (by rw [hp.writeLen, hp.server]; omega)
        rw [ht, ok_bind, hp.client, nonNull, ok_bind]
        exact ⟨u, c2, hu, hp.trans hp' (by omega)⟩
      · intro hbig
        by_cases hfirst : c.writeBufferLen +
            queuedBytes parseRcLine s.server ([l].filter isCommand) < maxWriteBuffer
        · obtain ⟨t, c1, ht, hp⟩ := hstay hfirst
          rw [ht, ok_bind, hp.client, nonNull, ok_bind]
          exact (hnext t c1 hp).2 (by rw [hp.writeLen, hp.server]; omega)
        · obtain ⟨t, ht, hfree⟩ := hgone (by omega)
          rw [ht, ok_bind, hfree]
          rfl
    · -- no line is complete
      have hnl0 : newline ≠ 0 := by decide
      rw [Buffer.strchr_of_notMem htext hend h0 hnl hnl0 (by omega), ok_bind, ifSome_none, commands,
        pieces_of_notMem hnl, Nat.sub_self]
      constructor
      · intro _
        exact ⟨s, c, rfl, h, rfl, hc, rfl, rfl, rfl, rfl, (List.append_nil _).symm, rfl,
          fun _ _ => rfl, fun _ _ => SameReading.refl⟩
      · intro hbig
        have hq0 : queuedBytes parseRcLine s.server (List.filter isCommand []) = 0 := rfl
        exact absurd hlt (by simp only at hbig; omega)

/-! ### One read -/

/-- The bounds of the read buffer. -/
structure Client.Receiving (c : Client) : Prop where
  len_lt : c.readBufLen < c.readBufCap
  len_uint16 : c.readBufLen < 2 ^ 16
  cap_pos : 1 ≤ c.readBufCap
  discard : c.readDiscard = false

theorem Client.Receiving.congr (h : c.Receiving) (hr : c'.reading = c.reading) :
    c'.Receiving := by
  simp only [Client.reading, Prod.mk.injEq] at hr
  obtain ⟨-, h2, h3, h4, -, -⟩ := hr
  exact ⟨by rw [h2, h3]; exact h.len_lt, by rw [h2]; exact h.len_uint16,
    by rw [h3]; exact h.cap_pos, h4.trans h.discard⟩

/-- What has been received and not been passed on. -/
def Client.unread (c : Client) : List UInt8 := c.readBuffer.slice 0 c.readBufLen

theorem Client.length_unread : c.unread.length = c.readBufLen := Buffer.length_slice

/-- The text `ipc_client_handle_command` looks at. -/
def Client.batch (c : Client) : List UInt8 := c.readBuffer.text c.readBufLen 0

/-- What `ipc_client_handle_command` has done to the client `c` of the state `s`
when it returns. -/
structure Handled (parseRcLine : τ → List UInt8 → τ × List Payload) (p : ClientPtr)
    (s t : Ipc τ) (c c' : Client) : Prop where
  inv : t.Inv
  client : t.client p = some c'
  receiving : c'.Receiving
  received : c'.received = c.received
  passed : c'.passed = c.passed ++ commands c.batch
  unread : c'.unread =
    c.unread.drop (c.batch.length - (pieces newline c.batch).2.length)
  others : ∀ q ≠ p, SameReading (s.client q) (t.client q)

/-- **The lines of one read** are passed on, unless the events they emit do not
fit the queue of the client. -/
theorem ipcClientHandleCommand_spec (parseRcLine : τ → List UInt8 → τ × List Payload) (h : s.Inv)
    (hc : s.client p = some c) (hr : c.Receiving) :
    (c.writeBufferLen + queuedBytes parseRcLine s.server (commands c.batch) < maxWriteBuffer →
      ∃ t c', ipcClientHandleCommand parseRcLine s p = .ok t ∧ Handled parseRcLine p s t c c') ∧
    (maxWriteBuffer ≤ c.writeBufferLen + queuedBytes parseRcLine s.server (commands c.batch) →
      ipcClientHandleCommand parseRcLine s p = .error .undefined) := by
  obtain ⟨htlen, ht0, htslice, htend⟩ :=
    Buffer.text_spec (b := Function.update c.readBuffer c.readBufLen 0) (n := c.readBufLen) (i := 0)
  have htext : Buffer.text (Function.update c.readBuffer c.readBufLen 0) c.readBufLen 0 =
      c.batch := by
    refine Buffer.text_congr fun i _ hi => ?_
    rw [Function.update_of_ne (by omega)]
  rw [htext] at htlen ht0 htslice htend
  rw [Nat.zero_add, Nat.zero_add] at htend
  have hlt := hr.len_lt
  have hrest : (pieces newline c.batch).2.length ≤ c.batch.length := pieces_suffix.length_le
  have hset : (s.setClient p { c with
      readBuffer := Function.update c.readBuffer c.readBufLen 0 }).Inv :=
    h.setClient hc ((h.sending p c hc).congr rfl)
  -- the loop runs up to the `NUL` that is written behind what has been read
  obtain ⟨hstay, hgone⟩ := commandLoop_spec parseRcLine (n := c.readBufLen + 1) hset
    setClient_self hr.discard htslice
    (by rw [Nat.zero_add]; exact htend (Function.update_self ..)) ht0 (by simp only; omega)
    (by omega)
  rw [ipcClientHandleCommand, hc, nonNull, ok_bind, deref, decide_eq_true hlt, if_pos rfl, ok_bind]
  constructor
  · intro hfits
    obtain ⟨t, c1, ht, hp⟩ := hstay hfits
    rw [Nat.zero_add] at ht hp
    have hlen1 : c1.readBufLen = c.readBufLen := hp.len
    have hcap1 : c1.readBufCap = c.readBufCap := hp.cap
    have huint := hr.len_uint16
    simp only [ht, ok_bind, hp.client, nonNull]
    refine ⟨_, _, rfl, hp.inv.setClient hp.client ((hp.inv.sending p c1 hp.client).congr rfl),
      setClient_self, ⟨?_, ?_, ?_, hp.discard.trans hr.discard⟩, hp.received, hp.passed, ?_,
      fun q hq => ?_⟩
    · show (c1.readBufLen + 2 ^ 16 - _ % 2 ^ 16) % 2 ^ 16 < c1.readBufCap
      omega
    · exact Nat.mod_lt _ (by norm_num)
    · exact hp.cap.symm ▸ hr.cap_pos
    · -- `memmove` brings what is left to the front
      have hoff : c1.readBufLen + 2 ^ 16 -
          (c.batch.length - (pieces newline c.batch).2.length) % 2 ^ 16 =
            c1.readBufLen - (c.batch.length - (pieces newline c.batch).2.length) + 2 ^ 16 := by
        omega
      simp only [Client.unread]
      rw [hoff, Nat.add_mod_right, Nat.mod_eq_of_lt (by omega), hlen1,
        Buffer.drop_slice (by omega), Nat.zero_add]
      by_cases hmove : c.batch.length - (pieces newline c.batch).2.length < c.readBufLen
      · rw [if_pos hmove]
        have hblit := @Buffer.slice_blit c1.readBuffer
          (c1.readBuffer.slice (c.batch.length - (pieces newline c.batch).2.length)
            (c.readBufLen - (c.batch.length - (pieces newline c.batch).2.length))) 0
        rw [Buffer.length_slice] at hblit
        rw [hblit]
        refine Buffer.slice_congr fun i h1 h2 => ?_
        rw [hp.rest i h1]
        exact Function.update_of_ne (by omega) ..
      · rw [Nat.sub_eq_zero_of_le (not_lt.mp hmove)]
        rfl
    · have := hp.others q hq
      rw [setClient_of_ne hq] at this ⊢
      exact this
  · intro hbig
    simp only [hgone hbig, error_bind]

/-- What a read of `bytes` makes of the client. -/
structure Received (bytes : List UInt8) (c c' : Client) : Prop where
  writing : c'.writing = c.writing
  receiving : c'.Receiving
  received : c'.received = c.received ++ bytes
  passed : c'.passed = c.passed
  len : c'.readBufLen = (c.readBufLen + bytes.length) % 2 ^ 16
  -- unless the length has wrapped around
  unread : c.readBufLen + bytes.length < 2 ^ 16 → c'.unread = c.unread ++ bytes

theorem receive_spec (readAvailable : ℕ) (bytes : List UInt8) (hr : c.Receiving)
    (hle : bytes.length ≤ readAvailable) :
    (readAvailable + c.readBufLen < 2 ^ 30 →
      ∃ c', receive c readAvailable bytes = .ok c' ∧ Received bytes c c') ∧
    (2 ^ 30 ≤ readAvailable + c.readBufLen →
      receive c readAvailable bytes = .error .undefined) := by
  rw [receive]
  constructor
  · intro hneed
    have hfuel : readAvailable + c.readBufLen < c.readBufCap + (readAvailable + c.readBufLen) :=
      Nat.lt_add_of_pos_left hr.cap_pos
    obtain ⟨k, hcap, hlt, -⟩ := doubleUntil_spec hr.cap_pos hfuel
    simp only [decide_eq_true hneed, deref, if_pos, ok_bind, hcap]
    have hmod : (c.readBufLen + bytes.length) % 2 ^ 16 ≤ c.readBufLen + bytes.length :=
      Nat.mod_le _ _
    refine ⟨_, rfl, rfl, ⟨?_, Nat.mod_lt _ (by norm_num), ?_, hr.discard⟩, rfl, rfl, rfl,
      fun hfits => ?_⟩
    · show (c.readBufLen + bytes.length) % 2 ^ 16 < c.readBufCap * 2 ^ k
      omega
    · exact Nat.mul_pos hr.cap_pos (Nat.two_pow_pos k)
    · simp only [Client.unread]
      rw [Nat.mod_eq_of_lt hfits, Buffer.slice_blit_append rfl]
  · intro hbig
    rw [decide_eq_false (by omega)]
    rfl

end Ipc

end Cagebreak
