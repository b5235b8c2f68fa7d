import DocFerry.Model.Client
import DocFerry.Proof.Archive

/-!
# A client and the server

`Conversation`: a client that runs `fake_client_send_file`, and the server that it is connected to. Their
steps come in any order, and the server has other clients.

* `FakeClient.Sending`: what the client has sent and is to send. `FakeClient.Sending.step` is its step.
* `FakeClient.Stands`: what the client made of the bytes it was given. `FakeClient.Stands.step` is its step.
* `Talk`: what holds of both sides between two steps.
* `conversation_answered`: what the client prints was answered to the bytes that it sent; when it is sent
  anything its file is saved by the server, and an empty file is never answered.
-/

namespace DocFerry

open Bytes Prog

/-- The answer that `fake_client_send_file` waits for. -/
def FakeClient.answer : Frame := (⟨123456, none⟩ : Request).answer

/-- The frame of a file: as much of it as the length field can count. -/
def FakeClient.frame (file : List UInt8) : Frame where
  id := 123456
  value := file.take (fileLength file).toNat
  small := by
    rw [List.length_take]
    exact lt_of_le_of_lt (min_le_left _ _) (fileLength file).toNat_lt

/-- A client that sends `file` and is connected to the handler `p` behind the descriptor `k`. Of what it
sent a prefix was received by `p`, and `down` is what it was sent. -/
inductive Conversation (E : Env) (m : ℕ) (k : ℤ) (p : SharedPtr) (host : Endian) (file : List UInt8) :
    (ℕ → List UInt8) → World → List UInt8 → FakeClient → Prop
  | accepted {heard : ℕ → List UInt8} {w : World} (resp : Response) (h : Server.Hears E m heard w)
      (hp : w.IsClient m k p) (hheard : heard p.obj = []) (hout : w.out k = []) :
      Conversation E m k p host file heard w [] (.begun host file resp)
  | server {heard heard' : ℕ → List UInt8} {w w' : World} {down : List UInt8} {c : FakeClient}
      (h : Conversation E m k p host file heard w down c) (hs : Server.Hear E m heard w heard' w')
      (hup : heard' p.obj <+: c.sent) :
      Conversation E m k p host file heard' w' (if w.look m k = some p then w'.out k else down) c
  | client {heard : ℕ → List UInt8} {w : World} {down : List UInt8} {c : FakeClient}
      (h : Conversation E m k p host file heard w down c) (ret : ℤ)
      (hret : c.Allows (down.drop c.got.length) ret) :
      Conversation E m k p host file heard w down (c.step host (down.drop c.got.length) ret)

/-- A client that sends `file` has sent nothing; or what the first call of `send` took of the header; or,
behind that, what the second took of the file. -/
inductive FakeClient.Sending (host : Endian) (file : List UInt8) (c : FakeClient) : Prop
  | header (hn : c.next = some .sendHeader) (hreq : c.req.bytes host = (FakeClient.frame file).head)
      (hdata : c.data = (FakeClient.frame file).value) (hsent : c.sent = []) : Sending host file c
  | value {i : ℕ} (hn : c.next = some .sendValue) (hdata : c.data = (FakeClient.frame file).value)
      (hsent : c.sent = (FakeClient.frame file).head.take i) : Sending host file c
  | sent {i j : ℕ} (hn : c.next ≠ some .sendHeader ∧ c.next ≠ some .sendValue)
      (hsent : c.sent = (FakeClient.frame file).head.take i ++ (FakeClient.frame file).value.take j) :
      Sending host file c

/-- What a client has, that was given bytes of `down`. -/
structure FakeClient.Stands (host : Endian) (down : List UInt8) (c : FakeClient) : Prop where
  got : c.got <+: down
  none : c.next = some .sendHeader ∨ c.next = some .sendValue ∨ c.next = some .recvHeader → c.got = []
  header : c.next = some .recvErrcode → c.got.length = 8 ∧ c.resp.header = .ofBytes host c.got
  silent : c.next ≠ Option.none → c.printed = Option.none
  printed : ∀ r, c.printed = some r →
    c.got.length = 12 ∧ r = ⟨headOf c.got, loadWord .big (c.got.drop 8)⟩

variable {host : Endian} {down down' : List UInt8} {c : FakeClient} {file : List UInt8} {ret : ℤ}

/-! ### The client -/

theorem fileLength_le (file : List UInt8) : (FakeClient.fileLength file).toNat ≤ file.length := by
  unfold FakeClient.fileLength
  rw [UInt32.toNat_ofNat']
  exact Nat.mod_le _ _

theorem fileLength_small (h : file.length < 2 ^ 32) : (FakeClient.fileLength file).toNat = file.length :=
  UInt32.toNat_ofNat_of_lt' h

/-- A file of less than 4 GiB is sent whole. -/
theorem frame_value (h : file.length < 2 ^ 32) : (FakeClient.frame file).value = file := by
  have hlen := fileLength_small h
  unfold FakeClient.frame
  dsimp only
  rw [hlen, List.take_length]

theorem frame_len (file : List UInt8) : (FakeClient.frame file).len = FakeClient.fileLength file := by
  have hle := fileLength_le file
  have hlen : (FakeClient.frame file).value.length = (FakeClient.fileLength file).toNat := by
    unfold FakeClient.frame
    rw [List.length_take]
    omega
  unfold Frame.len
  rw [hlen, UInt32.ofNat_toNat]

/-- **The header that the client sends** is that of the frame, whatever its byte order. -/
theorem begun_req (host : Endian) (file : List UInt8) (resp : Response) :
    (FakeClient.begun host file resp).req.bytes host = (FakeClient.frame file).head := by
  unfold Header.bytes Frame.head
  rw [frame_len]
  unfold FakeClient.begun
  rw [storeWord_htonl, storeWord_htonl]
  rfl

theorem FakeClient.Sending.begun (host : Endian) (file : List UInt8) (resp : Response) :
    (FakeClient.begun host file resp).Sending host file :=
  .header rfl (begun_req host file resp) rfl rfl

/-- A call of `send` ends the client, or takes some of its bytes. -/
theorem FakeClient.send_cases (c : FakeClient) (buf : List UInt8) (ret : ℤ) (next : ClientCall) :
    c.send buf ret next = { c with next := none } ∨
      c.send buf ret next = { c with next := some next, sent := c.sent ++ buf.take ret.toNat } := by
  unfold FakeClient.send
  split
  · exact .inl rfl
  split
  · exact .inl rfl
  · exact .inr rfl

/-- What a client has sent. -/
theorem FakeClient.Sending.pieces (h : c.Sending host file) :
    ∃ i j, c.sent = (FakeClient.frame file).head.take i ++ (FakeClient.frame file).value.take j := by
  cases h with
  | header _ _ _ hsent => exact ⟨0, 0, by rw [hsent, List.take_zero, List.take_zero, List.append_nil]⟩
  | @value i _ _ hsent => exact ⟨i, 0, by rw [hsent, List.take_zero, List.append_nil]⟩
  | @sent i j _ hsent => exact ⟨i, j, hsent⟩

/-- A piece of the header that is whole, or with nothing behind it, is the front of the frame. -/
theorem pieces_prefix (f : Frame) {i j : ℕ} (h : 8 ≤ i ∨ j = 0) : f.head.take i ++ f.value.take j <+: f.wire := by
  rcases h with h8 | rfl
  · rw [List.take_of_length_le (by rw [f.length_head]; exact h8)]
    exact (List.prefix_append_right_inj f.head).2 (List.take_prefix j f.value)
  · rw [List.take_zero, List.append_nil]
    exact (List.take_prefix i f.head).trans (List.prefix_append f.head f.value)

/-- A block that is as long as the array replaces it. -/
theorem overwrite_whole {l bs : List UInt8} (h : bs.length = l.length) : overwrite l 0 bs = bs := by
  unfold overwrite
  split
  · rename_i hnil
    rw [hnil] at h ⊢
    exact List.eq_nil_of_length_eq_zero h.symm
  · simp [h]

theorem FakeClient.send_stopped (c : FakeClient) (buf : List UInt8) (ret : ℤ) (next : ClientCall) :
    (c.send buf ret next).got = c.got ∧ (c.send buf ret next).printed = c.printed ∧
      c.sent <+: (c.send buf ret next).sent ∧
      ((c.send buf ret next).next = none ∨ (c.send buf ret next).next = some next) := by
  rcases c.send_cases buf ret next with h | h
  · rw [h]
    exact ⟨rfl, rfl, List.prefix_rfl, .inl rfl⟩
  · rw [h]
    exact ⟨rfl, rfl, List.prefix_append _ _, .inr rfl⟩

theorem FakeClient.recv_stopped (c c' : FakeClient) (size : ℕ) (ret : ℤ) :
    c.recv size ret c' = { c with next := none } ∨ ret = size ∧ c.recv size ret c' = c' := by
  unfold FakeClient.recv
  split
  · exact .inl rfl
  split
  · exact .inl rfl
  split
  · exact .inl rfl
  · rename_i hne
    exact .inr ⟨not_not.1 hne, rfl⟩

/-- The client never takes back what it sent. -/
theorem FakeClient.sent_step (c : FakeClient) (host : Endian) (input : List UInt8) (ret : ℤ) :
    c.sent <+: (c.step host input ret).sent := by
  unfold FakeClient.step
  split
  · exact (c.send_stopped _ ret _).2.2.1
  · exact (c.send_stopped _ ret _).2.2.1
  · dsimp only
    rcases FakeClient.recv_stopped _ _ _ ret with h | ⟨-, h⟩
    · rw [h]
      exact List.prefix_rfl
    · rw [h]
      exact List.prefix_rfl
  · dsimp only
    rcases FakeClient.recv_stopped _ _ _ ret with h | ⟨-, h⟩
    · rw [h]
      exact List.prefix_rfl
    · rw [h]
      exact List.prefix_rfl
  · exact List.prefix_rfl

/-- A call of `recv` sends nothing. -/
theorem FakeClient.recv_sent (c c' : FakeClient) (size : ℕ) (ret : ℤ) (hsent : c'.sent = c.sent)
    (hn : c'.next ≠ some .sendHeader ∧ c'.next ≠ some .sendValue) :
    (c.recv size ret c').sent = c.sent ∧
      (c.recv size ret c').next ≠ some .sendHeader ∧ (c.recv size ret c').next ≠ some .sendValue := by
  rcases c.recv_stopped c' size ret with h | ⟨-, h⟩
  · rw [h]
    exact ⟨rfl, by simp, by simp⟩
  · rw [h]
    exact ⟨hsent, hn⟩

/-- **A call of the client** sends the front of what it has to send. -/
theorem FakeClient.Sending.step (h : c.Sending host file) (input : List UInt8) (ret : ℤ) :
    (c.step host input ret).Sending host file := by
  unfold FakeClient.step
  cases h with
  | header hn hreq hdata hsent =>
    simp only [hn]
    rcases c.send_cases (c.req.bytes host) ret .sendValue with hs | hs
    · rw [hs]
      refine .sent (i := 0) (j := 0) ⟨by simp, by simp⟩ ?_
      rw [List.take_zero, List.take_zero, List.append_nil]
      exact hsent
    · rw [hs, hsent, hreq, List.nil_append]
      exact .value rfl hdata rfl
  | @value i hn hdata hsent =>
    simp only [hn]
    rcases c.send_cases c.data ret .recvHeader with hs | hs
    · rw [hs]
      refine .sent (i := i) (j := 0) ⟨by simp, by simp⟩ ?_
      rw [List.take_zero, List.append_nil]
      exact hsent
    · rw [hs, hsent, hdata]
      exact .sent ⟨by simp, by simp⟩ rfl
  | @sent i j hn hsent =>
    cases hc : c.next with
    | none => exact .sent hn hsent
    | some call =>
      cases call with
      | sendHeader => exact absurd hc hn.1
      | sendValue => exact absurd hc hn.2
      | recvHeader =>
        obtain ⟨hsame, hnext⟩ := (c.takeHeader host (input.take ret.toNat)).recv_sent
          { c.takeHeader host (input.take ret.toNat) with next := some .recvErrcode } sizeofHeader ret rfl
          ⟨by simp, by simp⟩
        exact .sent hnext (hsame.trans hsent)
      | recvErrcode =>
        obtain ⟨hsame, hnext⟩ := (c.takeErrcode host (input.take ret.toNat)).recv_sent
          ((c.takeErrcode host (input.take ret.toNat)).print host) 4 ret rfl
          ⟨by simp [FakeClient.print], by simp [FakeClient.print]⟩
        exact .sent hnext (hsame.trans hsent)

/-- What comes in goes on where the bytes stopped. -/
theorem prefix_take {l d : List UInt8} (h : l <+: d) (n : ℕ) : l ++ (d.drop l.length).take n <+: d := by
  obtain ⟨rest, rfl⟩ := h
  rw [List.drop_left]
  exact (List.prefix_append_right_inj l).2 (List.take_prefix n rest)

theorem FakeClient.Stands.mono (h : c.Stands host down) (hd : down <+: down') : c.Stands host down' :=
  ⟨h.got.trans hd, h.none, h.header, h.silent, h.printed⟩

/-- Behind a call of `send` nothing more was given. -/
theorem FakeClient.Stands.sends (h : c.Stands host down) (hnil : c.got = []) (hp : c.printed = Option.none)
    (buf : List UInt8) (ret : ℤ) {next : ClientCall} (hnext : next ≠ .recvErrcode) :
    (c.send buf ret next).Stands host down := by
  obtain ⟨hgot, hprinted, -, hstop⟩ := c.send_stopped buf ret next
  refine ⟨hgot ▸ h.got, fun _ => hgot.trans hnil, fun hr => ?_, fun _ => hprinted.trans hp, fun r hr => ?_⟩
  · rcases hstop with hs | hs
    · rw [hs] at hr
      cases hr
    · rw [hs] at hr
      exact absurd (Option.some.inj hr) hnext
  · rw [hprinted, hp] at hr
    cases hr

/-- A client that has come to the end and printed nothing. -/
theorem FakeClient.Stands.stopped (hgot : c.got <+: down) (hn : c.next = Option.none)
    (hp : c.printed = Option.none) : c.Stands host down := by
  refine ⟨hgot, fun hx => ?_, fun hx => ?_, fun hx => absurd hn hx, fun r hx => ?_⟩
  · rw [hn] at hx
    simp at hx
  · rw [hn] at hx
    cases hx
  · rw [hp] at hx
    cases hx

/-- The words that were stored are those of the network. -/
theorem ntohl_ofBytes (host : Endian) {bs : List UInt8} (h : bs.length = 8) :
    (⟨ntohl host (Header.ofBytes host bs).id, ntohl host (Header.ofBytes host bs).length⟩ : Header) =
      headOf bs := by
  have h4 : (bs.take 4).length = 4 := by rw [List.length_take]; omega
  have hl : (bs.drop 4).length = 4 := by rw [List.length_drop]; omega
  unfold Header.ofBytes headOf
  rw [ntohl_loadWord host h4, ntohl_loadWord host hl, List.take_of_length_le hl.le]

/-- **The header of the answer** comes in. -/
theorem FakeClient.Stands.header_in (hnil : c.got = []) (hp : c.printed = Option.none)
    (hret : ret ≤ min sizeofHeader down.length) :
    ((c.takeHeader host (down.take ret.toNat)).recv sizeofHeader ret
      { c.takeHeader host (down.take ret.toNat) with next := some .recvErrcode }).Stands host down := by
  set c' := c.takeHeader host (down.take ret.toNat) with hc'
  have hgot : c'.got = down.take ret.toNat := by
    rw [hc', FakeClient.takeHeader, hnil, List.nil_append]
  have hpre : c'.got <+: down := hgot ▸ List.take_prefix _ _
  rcases c'.recv_stopped { c' with next := some .recvErrcode } sizeofHeader ret with hr | ⟨h8, hr⟩
  · rw [hr]
    exact .stopped hpre rfl hp
  · have hlen : (down.take ret.toNat).length = 8 := by
      rw [List.length_take]
      rw [h8, sizeofHeader] at hret ⊢
      omega
    rw [hr]
    refine ⟨hpre, fun hx => ?_, fun _ => ⟨?_, ?_⟩, fun _ => hp, fun r hx => ?_⟩
    · simp at hx
    · exact (congrArg List.length hgot).trans hlen
    · change Header.ofBytes host (overwrite (c.resp.header.bytes host) 0 (down.take ret.toNat)) = .ofBytes host c'.got
      rw [overwrite_whole (hlen.trans (c.resp.header.length_bytes host).symm), hgot]
    · exact absurd (hp.symm.trans hx) (Option.some_ne_none r).symm

/-- **The error code of the answer** comes in, and is printed. -/
theorem FakeClient.Stands.errcode_in (h : c.Stands host down) (h8 : c.got.length = 8)
    (hheader : c.resp.header = .ofBytes host c.got) (hp : c.printed = Option.none)
    (hret : ret ≤ min 4 (down.drop c.got.length).length) :
    ((c.takeErrcode host ((down.drop c.got.length).take ret.toNat)).recv 4 ret
      ((c.takeErrcode host ((down.drop c.got.length).take ret.toNat)).print host)).Stands host down := by
  have hpre := prefix_take h.got ret.toNat
  set bs := (down.drop c.got.length).take ret.toNat with hbs
  rcases (c.takeErrcode host bs).recv_stopped ((c.takeErrcode host bs).print host) 4 ret with hr | ⟨h4, hr⟩
  · rw [hr]
    exact .stopped hpre rfl hp
  · have hlen : bs.length = 4 := by
      rw [hbs, List.length_take]
      rw [h4] at hret ⊢
      omega
    rw [hr]
    refine ⟨hpre, fun hx => ?_, fun hx => ?_, fun hx => absurd rfl hx, fun r hx => ⟨?_, ?_⟩⟩
    · simp [FakeClient.print] at hx
    · cases hx
    · change (c.got ++ bs).length = 12
      rw [List.length_append, h8, hlen]
    · change r = ⟨headOf (c.got ++ bs), loadWord .big ((c.got ++ bs).drop 8)⟩
      rw [← Option.some.inj hx, List.drop_left' h8, headOf_append h8.ge, ← ntohl_ofBytes host h8]
      change (⟨⟨ntohl host c.resp.header.id, ntohl host c.resp.header.length⟩,
        ntohl host (loadWord host (overwrite (storeWord host c.resp.errcode) 0 bs))⟩ : Response) = _
      rw [overwrite_whole (hlen.trans (length_storeWord _ _).symm), ntohl_loadWord host hlen, hheader]

/-- **A call of the client** leaves it where the bytes say. -/
theorem FakeClient.Stands.step (h : c.Stands host down) (hret : c.Allows (down.drop c.got.length) ret) :
    (c.step host (down.drop c.got.length) ret).Stands host down := by
  obtain ⟨-, hret⟩ := hret
  unfold FakeClient.atMost at hret
  unfold FakeClient.step
  cases hn : c.next with
  | none => exact h
  | some call =>
    have hsilent : c.printed = Option.none := h.silent (by rw [hn]; exact Option.some_ne_none _)
    rw [hn] at hret
    cases call with
    | sendHeader => exact h.sends (h.none (.inl hn)) hsilent _ _ (by decide)
    | sendValue => exact h.sends (h.none (.inr (.inl hn))) hsilent _ _ (by decide)
    | recvHeader =>
      have hnil := h.none (.inr (.inr hn))
      rw [hnil] at hret ⊢
      exact .header_in hnil hsilent (by exact_mod_cast hret)
    | recvErrcode =>
      obtain ⟨h8, hheader⟩ := h.header hn
      exact h.errcode_in h8 hheader hsilent (by exact_mod_cast hret)

/-! ### Both sides -/

variable {E : Env} {m : ℕ} {heard heard' : ℕ → List UInt8} {w w' : World} {k : ℤ} {p : SharedPtr}

/-- What a client is owed that has sent `bs`. -/
def due (bs : List UInt8) : List UInt8 := wires ((requests.items false bs).map Request.answer)

/-- More bytes make no answer wrong. -/
theorem due_prefix {bs cs : List UInt8} (h : bs <+: cs) : due bs <+: due cs := by
  obtain ⟨rest, rfl⟩ := h
  obtain ⟨qs, hqs⟩ := requests.items_prefix false bs rest
  unfold due
  rw [← hqs, List.map_append, wires_append]
  exact List.prefix_append _ _

/-- **Who is sent anything** is answered to its first eight bytes. -/
theorem due_head {bs : List UInt8} (h : due bs ≠ []) :
    8 < bs.length ∧ ∃ (q : Request) (rest : List UInt8), q.id = (headOf bs).id ∧ due bs = q.answer.wire ++ rest := by
  cases hn : nextRequest false bs with
  | none =>
    rw [due, Scanner.items_none (S := requests) hn] at h
    exact absurd rfl h
  | some r =>
    obtain ⟨q, stale, n⟩ := r
    obtain ⟨h8, -, -, -, rfl⟩ := nextRequest_inv hn
    rw [due, Scanner.items_some (S := requests) hn, List.map_cons, wires_cons]
    exact ⟨h8, _, _, rfl, rfl⟩

/-- **A frame is answered** when it is there whole and has a value. -/
theorem due_of_prefix {f : Frame} {bs : List UInt8} (h : bs <+: f.wire) :
    (bs ≠ f.wire ∨ f.value = [] → requests.items false bs = []) ∧
      (f.value ≠ [] → requests.items false f.wire = [⟨f.id, some f.value⟩]) := by
  have hhead : ∀ bs : List UInt8, 8 < bs.length → bs <+: f.wire → headOf bs = ⟨f.id, f.len⟩ := by
    intro bs h8 hbs
    exact headOf_of_prefix (List.prefix_of_prefix_length_le (List.prefix_append f.head f.value) hbs
      (by rw [f.length_head]; exact h8.le))
  have hlen := h.length_le
  rw [f.length_wire] at hlen
  refine ⟨fun hor => Scanner.items_none (nextRequest_none ?_), fun hv => ?_⟩
  · by_cases h8 : bs.length ≤ 8
    · exact .inl h8
    · right
      rw [hhead bs (by omega) h]
      change bs.length < 8 + f.len.toNat
      rw [f.len_toNat]
      rcases hor with hne | hnil
      · -- a prefix of the same length is the frame
        have hlt : bs.length ≠ f.wire.length := fun heq => hne (h.eq_of_length heq)
        rw [f.length_wire] at hlt
        omega
      · rw [hnil, List.length_nil] at hlen
        omega
  · have hpos := List.length_pos_iff.2 hv
    have h8 : 8 < f.wire.length := by rw [f.length_wire]; omega
    have hh := hhead f.wire h8 List.prefix_rfl
    have hnext := @nextRequest_some false _ h8 (by
      rw [hh, f.length_wire]
      simp [valueLen])
    rw [hh] at hnext
    have hval : (f.wire.drop 8).take f.len.toNat = f.value := by
      rw [Frame.wire, List.drop_left' f.length_head, f.len_toNat, List.take_length]
    have hrest : f.wire.drop (8 + valueLen false ⟨f.id, f.len⟩) = [] := by
      apply List.drop_eq_nil_of_le
      rw [f.length_wire]
      simp [valueLen]
    rw [Scanner.items_some (S := requests) hnext, hrest, Scanner.items_none (requests.next_nil _)]
    dsimp only
    rw [hval]
    rfl

/-- What holds of both sides between two steps. -/
structure Talk (E : Env) (m : ℕ) (k : ℤ) (p : SharedPtr) (host : Endian) (heard : ℕ → List UInt8) (w : World)
    (down : List UInt8) (c : FakeClient) : Prop where
  hears : Server.Hears E m heard w
  made : p.obj < w.nobj
  client : w.look m k = some p → (w.objs p.obj).cls = .virusHandler ∧ down = w.out k
  received : heard p.obj <+: c.sent
  owed : down <+: due (heard p.obj)
  stands : c.Stands host down

/-- Who is registered was so before, is of the same class, or is new. -/
theorem Server.Heard.registered (h : Server.Heard E m heard w heard' w') (hp : w'.look m k = some p)
    (hmade : p.obj < w.nobj) :
    w.look m k = some p ∧ (w'.objs p.obj).cls = (w.objs p.obj).cls := by
  cases h with
  | unheard hu =>
    rcases hu.registered k p hp with ⟨hold, -⟩ | ⟨hnew, -⟩
    · exact ⟨hold, (hu.still.old p.obj (.inl hmade)).cls⟩
    · omega
  | @reads k' p' buf virus d log hp' _ _ _ _ _ =>
    refine ⟨hp, ?_⟩
    rcases eq_or_ne p.obj p'.obj with heq | hne
    · rw [heq, World.readBy_self]
    · rw [World.readBy_ne _ virus d hne]

/-- Nothing that was made or received is taken back. -/
theorem Server.Heard.grows (h : Server.Heard E m heard w heard' w') :
    w.nobj ≤ w'.nobj ∧ ∀ i, heard i <+: heard' i := by
  cases h with
  | unheard hu => exact ⟨hu.still.nobj, fun i => List.prefix_rfl⟩
  | @reads k p buf virus d log _ _ _ _ _ _ =>
    refine ⟨le_rfl, fun i => ?_⟩
    rcases eq_or_ne i p.obj with rfl | hne
    · rw [Function.update_self]
      exact List.prefix_append _ _
    · rw [Function.update_of_ne hne]

/-- **What a client is sent** in a step was queued for it. -/
theorem Server.Heard.sent (h : Server.Heard E m heard w heard' w') (hE : E.SendsWhole)
    (hp : w.look m k = some p) : w.out k <+: w'.out k ∧ w'.out k <+: w.owed E.host k (w.objs p.obj) := by
  cases h with
  | unheard hu => exact hu.sent hE k p hp
  | reads => exact World.owed_of_out rfl

/-- **A step of the server** keeps what holds of both sides. -/
theorem Talk.server (h : Talk E m k p host heard w down c) (hE : E.toLibC.Succeeds) (hsend : E.SendsWhole)
    (hs : Server.Hear E m heard w heard' w') (hup : heard' p.obj <+: c.sent) :
    Talk E m k p host heard' w' (if w.look m k = some p then w'.out k else down) c := by
  have hses := h.hears.sessions hE
  have hkind := hs.kinds hses
  obtain ⟨hnobj, hgrows⟩ := hkind.grows
  have howed : due (heard p.obj) <+: due (heard' p.obj) := due_prefix (hgrows p.obj)
  by_cases hp : w.look m k = some p
  · rw [if_pos hp]
    obtain ⟨hc, hdown⟩ := h.client hp
    obtain ⟨hmore, hsent⟩ := hkind.sent hsend hp
    rw [hses.answers.owed, hses.wire hsend k p hp hc] at hsent
    refine ⟨h.hears.step hs, h.made.trans_le hnobj, fun hp' => ⟨?_, rfl⟩, hup, hsent.trans howed,
      h.stands.mono (hdown ▸ hmore)⟩
    rw [(hkind.registered hp' h.made).2]
    exact hc
  · rw [if_neg hp]
    refine ⟨h.hears.step hs, h.made.trans_le hnobj, fun hp' => ?_, hup, h.owed.trans howed, h.stands⟩
    exact absurd (hkind.registered hp' h.made).1 hp

/-- It holds in every conversation. -/
theorem Conversation.talk (h : Conversation E m k p host file heard w down c) (hE : E.toLibC.Succeeds)
    (hsend : E.SendsWhole) : Talk E m k p host heard w down c := by
  induction h with
  | @accepted heard w resp h hp hheard hout =>
    refine ⟨h, ((h.sessions hE).server k p hp.1).obj, fun _ => ⟨hp.2, hout.symm⟩, ?_, List.nil_prefix, ?_⟩
    · rw [hheard]
      exact List.nil_prefix
    · refine ⟨List.prefix_rfl, fun _ => rfl, fun hx => ?_, fun _ => rfl, fun r hx => ?_⟩
      · cases hx
      · cases hx
  | server _ hs hup ih => exact ih.server hE hsend hs hup
  | client _ ret hret ih =>
    exact ⟨ih.hears, ih.made, ih.client, ih.received.trans (FakeClient.sent_step _ _ _ _), ih.owed,
      ih.stands.step hret⟩

/-- What the client sends is known in every conversation. -/
theorem Conversation.sending (h : Conversation E m k p host file heard w down c) : c.Sending host file := by
  induction h with
  | accepted resp _ _ _ _ => exact .begun host file resp
  | server _ _ _ ih => exact ih
  | client _ ret _ ih => exact ih.step _ ret

/-- A whole frame is answered. -/
theorem due_frame (hv : (FakeClient.frame file).value ≠ []) :
    due (FakeClient.frame file).wire = FakeClient.answer.wire := by
  obtain ⟨-, hone⟩ := due_of_prefix (List.prefix_refl (FakeClient.frame file).wire)
  rw [due, hone hv, List.map_singleton, wires_cons, wires_nil, List.append_nil]
  rfl

/-- What becomes of a client that sent no more than its frame. -/
structure Served (E : Env) (m : ℕ) (k : ℤ) (p : SharedPtr) (file : List UInt8) (heard : ℕ → List UInt8)
    (w : World) (down : List UInt8) : Prop where
  /-- it is sent nothing but its answer, -/
  answer : down <+: FakeClient.answer.wire
  /-- and that only when its file is saved -/
  saved : down ≠ [] → (FakeClient.frame file).value ≠ [] ∧ heard p.obj = (FakeClient.frame file).wire ∧
    ∃ f, w.disk.Saves f (FakeClient.frame file).value ∧ (file.length < 2 ^ 32 → w.disk.Saves f file)
  /-- when the frame was received, the answer was sent or is queued -/
  queued : w.look m k = some p → heard p.obj = (FakeClient.frame file).wire → (FakeClient.frame file).value ≠ [] →
    down ++ (w.objs p.obj).virus.resp.flatMap (HV.wire E.host) = FakeClient.answer.wire

/-- **What the client prints** was answered to the first eight bytes that it sent, with `OK`. -/
theorem Talk.prints (h : Talk E m k p host heard w down c) {r : Response} (hr : c.printed = some r) :
    r = ⟨⟨(headOf c.sent).id, 4⟩, 0⟩ ∧ down ≠ [] := by
  obtain ⟨h12, rfl⟩ := h.stands.printed r hr
  have hgot : c.got <+: due (heard p.obj) := h.stands.got.trans h.owed
  have hne : due (heard p.obj) ≠ [] := by
    intro hnil
    have hle := hgot.length_le
    rw [hnil, h12] at hle
    simp at hle
  obtain ⟨h8, q, rest, hid, hrest⟩ := due_head hne
  set f := q.answer with hf
  have hwire : c.got = f.wire := by
    have hpre : f.wire <+: due (heard p.obj) := ⟨rest, hrest.symm⟩
    exact (List.prefix_of_prefix_length_le hgot hpre (by rw [h12, f.length_wire]; rfl)).eq_of_length
      (by rw [h12, f.length_wire]; rfl)
  have hhead : headOf (heard p.obj) = headOf c.sent := by
    obtain ⟨more, hmore⟩ := h.received
    rw [← hmore, headOf_append h8.le]
  refine ⟨?_, fun hnil => ?_⟩
  · have hf8 : headOf f.wire = ⟨f.id, f.len⟩ := headOf_of_prefix (List.prefix_append f.head f.value)
    rw [hwire, hf8, Frame.wire, List.drop_left' f.length_head, ← hhead, ← hid]
    rfl
  · have hle := h.stands.got.length_le
    rw [hnil, h12] at hle
    simp at hle

/-- **What becomes of the client.** -/
theorem Talk.served (h : Talk E m k p host heard w down c) (hE : E.toLibC.Succeeds) (hsend : E.SendsWhole)
    (hclock : E.toLibC.ClockWords) (ht : E.toLibC.Ticks w.disk.nclock)
    (hsent : c.sent <+: (FakeClient.frame file).wire) : Served E m k p file heard w down := by
  have hpre : heard p.obj <+: (FakeClient.frame file).wire := h.received.trans hsent
  obtain ⟨hnone, hone⟩ := due_of_prefix hpre
  by_cases hwhole : heard p.obj = (FakeClient.frame file).wire ∧ (FakeClient.frame file).value ≠ []
  · obtain ⟨heq, hv⟩ := hwhole
    refine ⟨?_, fun _ => ⟨hv, heq, ?_⟩, fun hp _ _ => ?_⟩
    · rw [← due_frame hv, ← heq]
      exact h.owed
    · obtain ⟨fs, ⟨hsaves, -⟩, -⟩ := (h.hears.archives hE hclock ht).archive
      have hs := hsaves p.obj
      rw [heq, hone hv] at hs
      simp only [values, List.filterMap_cons, List.filterMap_nil, ne_eq, hv, not_false_eq_true, decide_true,
        List.filter_cons_of_pos, List.filter_nil] at hs
      obtain ⟨f, l, hf, -, -⟩ := List.forall₂_cons_right_iff.1 hs
      refine ⟨f, hf, fun hsmall => ?_⟩
      rwa [frame_value hsmall] at hf
    · obtain ⟨hc, hdown⟩ := h.client hp
      have hwire := (h.hears.sessions hE).wire hsend k p hp hc
      rw [hdown, ← due_frame hv, ← heq]
      exact hwire
  · have hitems : requests.items false (heard p.obj) = [] := by
      apply hnone
      by_cases heq : heard p.obj = (FakeClient.frame file).wire
      · exact .inr (not_not.1 fun hv => hwhole ⟨heq, hv⟩)
      · exact .inl heq
    have hdown : down = [] := by
      have ho := h.owed
      rw [due, hitems] at ho
      exact List.eq_nil_of_prefix_nil ho
    exact ⟨hdown ▸ List.nil_prefix, fun hne => absurd hdown hne, fun _ heq hv => absurd ⟨heq, hv⟩ hwhole⟩

/-- **A file that is acknowledged is saved.** However the steps of both sides and the events of the other
clients are interleaved: what the client prints is `OK` for the id that it sent. It sends the front of its
header and then the front of its file, which make the front of its frame if the header went out whole or
nothing went out behind it. Then nothing but this answer is on the way to it, and that only when the whole
file was received and is saved by the server; an empty file is never answered. -/
theorem conversation_answered (hE : E.toLibC.Succeeds) (hsend : E.SendsWhole) (hclock : E.toLibC.ClockWords)
    (h : Conversation E m k p host file heard w down c) (ht : E.toLibC.Ticks w.disk.nclock) :
    (∀ r, c.printed = some r → r = ⟨⟨(headOf c.sent).id, 4⟩, 0⟩ ∧ down ≠ []) ∧
      (∃ i j, c.sent = (FakeClient.frame file).head.take i ++ (FakeClient.frame file).value.take j ∧
        (8 ≤ i ∨ j = 0 → c.sent <+: (FakeClient.frame file).wire)) ∧
      (c.sent <+: (FakeClient.frame file).wire → Served E m k p file heard w down) := by
  have htalk := h.talk hE hsend
  obtain ⟨i, j, hpieces⟩ := h.sending.pieces
  refine ⟨fun r hr => htalk.prints hr, ⟨i, j, hpieces, fun hwhole => ?_⟩,
    fun hsent => htalk.served hE hsend hclock ht hsent⟩
  rw [hpieces]
  exact pieces_prefix _ hwhole

/-- A file of one byte, as it is sent. -/
def smallFile : List UInt8 := [0, 1, 226, 64, 0, 0, 0, 1, 9]

/-- The process after the client of `answered` could be written to. -/
def World.replied (bs : List UInt8) : World :=
  final (BaseSocket.handleEvent (.oneClient bs) 1 .write ((World.answered bs).logged (.event 1 5 .write)))

/-- The client after it has sent everything. -/
def FakeClient.waiting : FakeClient :=
  ((FakeClient.begun .little [9] ⟨⟨0, 0⟩, 0⟩).step .little [] 8).step .little [] 1

/-- Both sides when the answer was sent. -/
theorem replied_conversation : ∃ heard, Conversation (.oneClient smallFile) 0 5 ⟨1, 1⟩ .little [9] heard
    (.replied smallFile) FakeClient.answer.wire .waiting := by
  obtain ⟨heard, haccept, hnil⟩ := accepted_hears smallFile (by decide +kernel) (by decide +kernel)
  have h₀ : Conversation (.oneClient smallFile) 0 5 ⟨1, 1⟩ .little [9] heard (.accepted smallFile) []
      (.begun .little [9] ⟨⟨0, 0⟩, 0⟩) :=
    .accepted _ haccept ⟨by decide +kernel, by decide +kernel⟩ hnil (by decide +kernel)
  have h₂ : Conversation (.oneClient smallFile) 0 5 ⟨1, 1⟩ .little [9] heard (.accepted smallFile) [] .waiting :=
    (h₀.client 8 (by decide)).client 1 (by decide)
  -- the server reads what was sent, and then writes
  have hread : BaseSocket.handleEvent (.oneClient smallFile) 1 .read
      ((World.accepted smallFile).logged (.event 1 5 .read)) = .ok ⟨⟩ (.answered smallFile) :=
    eq_ok_final (by decide +kernel)
  have hwrite : BaseSocket.handleEvent (.oneClient smallFile) 1 .write
      ((World.answered smallFile).logged (.event 1 5 .write)) = .ok ⟨⟩ (.replied smallFile) :=
    eq_ok_final (by decide +kernel)
  have hgets : (World.accepted smallFile).gets (.oneClient smallFile) 1 .read = smallFile := by decide +kernel
  have hgets' : (World.answered smallFile).gets (.oneClient smallFile) 1 .write = [] := by decide +kernel
  have hsent : FakeClient.waiting.sent = smallFile := by decide +kernel
  have h₃ := h₂.server (.event (k := 5) (p := ⟨1, 1⟩) (by decide +kernel) hread) (by
    rw [Function.update_self, hnil, hgets, hsent, List.nil_append])
  have h₄ := h₃.server (.event (k := 5) (p := ⟨1, 1⟩) (by decide +kernel) hwrite) (by
    rw [Function.update_self, Function.update_self, hnil, hgets, hgets', hsent, List.nil_append, List.append_nil])
  rw [if_pos (by decide +kernel), show (World.replied smallFile).out 5 = FakeClient.answer.wire by decide +kernel] at h₄
  exact ⟨_, h₄⟩

/-- The client after it has read the answer. -/
def FakeClient.done : FakeClient :=
  (FakeClient.waiting.step .little FakeClient.answer.wire 8).step .little (FakeClient.answer.wire.drop 8) 4

/-- One client with a file of one byte: it prints the answer, and the byte is on the disk. -/
theorem conversation_answered_one : ∃ heard,
    (∀ r, FakeClient.done.printed = some r →
      r = ⟨⟨(headOf FakeClient.done.sent).id, 4⟩, 0⟩ ∧ FakeClient.answer.wire ≠ []) ∧
      Served (.oneClient smallFile) 0 5 ⟨1, 1⟩ [9] heard (.replied smallFile) FakeClient.answer.wire := by
  obtain ⟨heard, h⟩ := replied_conversation
  have hdone : Conversation (.oneClient smallFile) 0 5 ⟨1, 1⟩ .little [9] heard (.replied smallFile)
      FakeClient.answer.wire .done :=
    (h.client 8 (by decide)).client 4 (by decide)
  have hwords : LibC.ClockWords .steady := fun _ => ⟨by norm_num [LibC.steady], by norm_num [LibC.steady]⟩
  have hanswered := conversation_answered LibC.steady_succeeds (fun _ => .inl rfl) hwords hdone (by
    -- the clock was read once
    intro i j hij hj
    rw [show (World.replied smallFile).disk.nclock = 1 by decide +kernel] at hj
    omega)
  exact ⟨heard, hanswered.1, hanswered.2.2 (by decide +kernel)⟩

end DocFerry
