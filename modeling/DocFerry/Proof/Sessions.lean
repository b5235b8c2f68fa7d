import DocFerry.Proof.Events
import DocFerry.Proof.Isolation
import DocFerry.Proof.Session

/-!
# The server serves every client by itself

`Server.Hears E m heard w`: the runs of the server event by event (`Server.Hear`), with the bytes that each
handler has received.

* `Apart`: what the loop of `handle_read` leaves of the streams of others.
* `Sessions`: what holds between two events. `Sessions.unheard` and `Sessions.reads` are its steps.
* `sessions_apart`: however the events of the clients are interleaved, what a client is sent, and is
  still to be sent, answers its own bytes and depends on nothing else.
-/

namespace DocFerry

open Bytes Prog

/-- The frame that answers a request: its value is the state `OK`. -/
def Request.answer (q : Request) : Frame := ⟨q.id, [0, 0, 0, 0], by decide⟩

/-- A step of the server on the map `m`, and what it adds to what each handler has received. An event
that does not return is none of these. -/
inductive Server.Hear (E : Env) (m : ℕ) (heard : ℕ → List UInt8) (w : World) : (ℕ → List UInt8) → World → Prop
  | server {w' : World} {srv : TCPServer} (host : Option String) (port : UInt16)
      (hrun : TCPServer.new E host port (some m) w = .ok srv w') : Hear E m heard w heard w'
  | select (hlow : ∀ k ∈ ((serverTable E m).interest w).e, k < fdSetSize) :
      Hear E m heard w heard { w with nselect := w.nselect + 1 }
  | event {w' : World} {k : ℤ} {p : SharedPtr} {bit : Bit} (hp : w.look m k = some p)
      (hrun : BaseSocket.handleEvent E p.obj bit (w.logged (.event p.obj k bit)) = .ok ⟨⟩ w') :
      Hear E m heard w (Function.update heard p.obj (heard p.obj ++ w.gets E p.obj bit)) w'

/-- The runs of the server, and what each handler has received in them. A run ends where the process
does, or stops to return: at bytes that come inside a header, at an error of `send`, at a number that
`select` cannot take, where there is memory for the first part of a cache only, and where the file of a
value takes nothing more. -/
inductive Server.Hears (E : Env) (m : ℕ) : (ℕ → List UInt8) → World → Prop
  | init : Hears E m (fun _ => []) .init
  | step {heard heard' : ℕ → List UInt8} {w w' : World} (h : Hears E m heard w) (hs : Hear E m heard w heard' w') :
      Hears E m heard' w'

/-- A client that has sent `bs`: it was sent, or is still to be sent, one answer for each request, and
its handler stands where the scanner stands. If it began with large frames these are the requests. -/
structure Session (E : Env) (w : World) (k : ℤ) (o : BaseSocket) (bs : List UInt8) : Prop where
  wire : w.wire E.host k o = wires ((requests.items false bs).map Request.answer)
  pends : o.virus.req.Pends w.disk (requests.mode false bs) (requests.rest false bs)
  frames : ∀ fs : List Frame, (∀ f ∈ fs, f.Large) → wires fs <+: bs →
    wires (fs.map fun f => f.request.answer) <+: w.wire E.host k o

/-- The streams in `O` are as they were on the disk `d₀`, and none of them is that of `s`. -/
structure Apart (O : Set ℕ) (d₀ : Disk) (s : HV) (d : Disk) : Prop where
  sound : d.Sound
  same : ∀ fp ∈ O, d.streams fp = d₀.streams fp
  free : ∀ fp ∈ O, ¬ s.Holds fp

/-- What holds between two events. -/
structure Sessions (E : Env) (m : ℕ) (heard : ℕ → List UInt8) (w : World) : Prop where
  server : Server m w
  answers : w.Answers E
  sound : w.disk.Sound
  idle : ∀ k p, w.look m k = some p → (w.objs p.obj).connecting = false
  unmade : ∀ i, w.nobj ≤ i → heard i = []
  pends : ∀ k p, w.look m k = some p → (w.objs p.obj).cls = .virusHandler →
    (w.objs p.obj).virus.req.Pends w.disk (requests.mode false (heard p.obj)) (requests.rest false (heard p.obj))
  wire : E.SendsWhole → ∀ k p, w.look m k = some p → (w.objs p.obj).cls = .virusHandler →
    w.wire E.host k (w.objs p.obj) = wires ((requests.items false (heard p.obj)).map Request.answer)
  apart : ∀ k p k' p' fp, w.look m k = some p → w.look m k' = some p' → k' ≠ k →
    (w.objs p.obj).cls = .virusHandler → (w.objs p'.obj).cls = .virusHandler →
      (w.objs p.obj).virus.req.Holds fp → ¬ (w.objs p'.obj).virus.req.Holds fp

variable {E : Env} {m : ℕ} {heard : ℕ → List UInt8} {w w' : World} {k : ℤ} {p : SharedPtr} {bit : Bit}
  {C : LibC} {s s' : HV} {d d' d₀ : Disk} {O : Set ℕ} {fp : ℕ} {st : Stream}

/-- A reply on the wire is a frame. -/
theorem reply_wire (E : LibC) (q : Request) : (q.reply E).wire E.host = q.answer.wire := by
  have hcode : storeWord E.host State.ok.code = [0, 0, 0, 0] := by
    cases E.host with
    | big => decide
    | little => decide
  have hblocks := (replyTo_wellFormed E q.id .ok).flatten_blocks E.host
  rw [replyTo_blocks, hcode] at hblocks
  rw [Request.reply, ← hblocks]
  rfl

/-- **Large frames** are answered one by one, and before all that comes behind them. -/
theorem answers_of_wires {fs : List Frame} {bs : List UInt8} (hlarge : ∀ f ∈ fs, f.Large)
    (h : wires fs <+: bs) :
    wires (fs.map fun f => f.request.answer) <+: wires ((requests.items false bs).map Request.answer) := by
  obtain ⟨qs, hqs⟩ := requests_of_wires hlarge h
  rw [← hqs, List.map_append, wires_append, List.map_map]
  exact List.prefix_append _ _

theorem replies_wire (E : LibC) (qs : List Request) :
    (qs.map (Request.reply E)).flatMap (HV.wire E.host) = wires (qs.map Request.answer) := by
  induction qs with
  | nil => rfl
  | cons q qs ih => rw [List.map_cons, List.flatMap_cons, ih, reply_wire, List.map_cons, wires_cons]

/-! ### The disk under one request -/

/-- Who stands where, with which stream open, goes on to do so on a disk with the same stream. -/
theorem HV.Pends.mono {stale : Bool} {rest : List UInt8} (h : s.Pends d stale rest)
    (hs : ∀ fp, s.Holds fp → d'.streams fp = d.streams fp) : s.Pends d' stale rest := by
  have hfile : ∀ c, s.value = some c → FileCache d c → FileCache d' c := by
    intro c hc hf
    obtain ⟨st, hst⟩ := hf.isOpen
    obtain ⟨fp, hw, hopen⟩ := stream_inv hst
    refine ⟨hf.buf, ⟨st, ?_⟩, hf.le, hf.small⟩
    rw [Disk.stream, hw, Option.bind_some, hs fp ⟨c, hc, hw⟩]
    exact hopen
  refine ⟨h.hlen, h.head, h.header, h.storage, h.pending, ?_⟩
  have hv := h.value
  generalize hval : s.value = v at hv
  cases hv with
  | none hk => exact .none hk
  | some hc hcap hw hlt => exact .some (hfile _ hval hc) hcap hw hlt
  | stale hc hf hk => exact .stale (hfile _ hval hc) hf hk

theorem pushing_moved (hs : d.streams fp = some st) (C : LibC) (data : List UInt8) (n : ℕ) :
    Moved d (d.pushing C fp st data n) fp := by
  refine ⟨rfl, rfl, rfl, fun f hf => Function.update_of_ne (Ne.symm (hf st hs)) _ _,
    fun fp' hne => Function.update_of_ne hne _ _, ?_⟩
  simp [Disk.pushing, Disk.writing, hs]

theorem made_sound (hd : d.Sound) (E : LibC) (n : ℕ) : (d.made E n).Sound :=
  making_sound (d := { d with ncalloc := d.ncalloc + 2 }) ⟨hd.inj, hd.named, hd.opened⟩ _ _ _ _

theorem replied_sound (hd : d.Sound) : d.replied.Sound := ⟨hd.inj, hd.named, hd.opened⟩

/-- A cache with which a value goes on has a stream of the request, or a new one. -/
theorem HV.Cached.stream {c : Cache} {n : ℕ} (h : s.Cached C n d c d') (hw : c.priv.wfp = some fp) :
    s.Holds fp ∧ d' = d ∨ fp = d.nstream ∧ d' = d.made C n := by
  cases h with
  | old hv => exact .inl ⟨⟨c, hv, hw⟩, rfl⟩
  | new =>
    refine .inr ⟨?_, rfl⟩
    exact (Option.some.inj hw).symm

theorem HV.Cached.sound {c : Cache} {n : ℕ} (h : s.Cached C n d c d') (hd : d.Sound) : d'.Sound := by
  cases h with
  | old => exact hd
  | new => exact made_sound hd C n

/-- **A call of `write`** leaves the streams of others alone. -/
theorem Apart.worked (h : Apart O d₀ s d) (hO : ∀ fp ∈ O, d₀.streams fp ≠ none) (hw : s.Worked C d s' d') :
    Apart O d₀ s' d' := by
  cases hw with
  | kept hv =>
    refine ⟨h.sound, h.same, fun fp hfp hh => h.free fp hfp ?_⟩
    obtain ⟨c, hc, hwfp⟩ := hh
    exact ⟨c, hv ▸ hc, hwfp⟩
  | @pushed c d₁ n own j st data hc hf hown hst hj hv =>
    have hmoved := pushing_moved hst C data j
    have hs' : ∀ fp, s'.Holds fp ↔ fp = own := fun fp => holds_iff (c := c.grow j) hv hown
    -- its own stream is none of the others'
    have hfree : own ∉ O := by
      intro hin
      rcases hc.stream hown with ⟨hh, -⟩ | ⟨hnew, -⟩
      · exact h.free own hin hh
      · obtain ⟨st', hst'⟩ := Option.ne_none_iff_exists'.1 (hO own hin)
        have hlt := h.sound.opened own st' ((h.same own hin).trans hst')
        omega
    refine ⟨hmoved.sound (hc.sound h.sound), fun fp hfp => ?_, fun fp hfp hh => ?_⟩
    · have hne : fp ≠ own := fun heq => hfree (heq ▸ hfp)
      rw [hmoved.streams fp hne, ← h.same fp hfp]
      rcases hc.stream hown with ⟨-, rfl⟩ | ⟨hnew, rfl⟩
      · rfl
      · exact Function.update_of_ne (hnew ▸ hne) _ _
    · exact hfree ((hs' fp).1 hh ▸ hfp)

/-- **`clear`** closes no stream but its own. -/
theorem Apart.cleared (h : Apart O d₀ s d) : Apart O d₀ (s.clear d).1 (s.clear d).2.replied := by
  by_cases hst : s.storage = .file ∨ s.storage = .shm
  · unfold HV.clear
    simp only [if_pos hst]
    cases hv : s.value with
    | none => exact ⟨replied_sound h.sound, h.same, fun fp _ => holds_none rfl fp⟩
    | some c =>
      dsimp only
      unfold leaveCache
      cases hw : c.priv.wfp with
      | none => exact ⟨replied_sound h.sound, h.same, fun fp _ => holds_none rfl fp⟩
      | some own =>
        refine ⟨replied_sound (fclose_sound h.sound own), fun fp hfp => ?_, fun fp _ => holds_none rfl fp⟩
        have hne : fp ≠ own := fun heq => h.free fp hfp ⟨c, hv, heq ▸ hw⟩
        exact (Function.update_of_ne hne _ _).trans (h.same fp hfp)
  · unfold HV.clear
    simp only [if_neg hst]
    exact ⟨replied_sound h.sound, h.same, h.free⟩

/-- **The loop of `handle_read`** leaves the streams of others alone. -/
theorem apart_rules (C : LibC) (hO : ∀ fp ∈ O, d₀.streams fp ≠ none) :
    ScanRules C False fun _ s d => Apart O d₀ s d := by
  constructor
  · intro _ _ _ _ s d s' d' h _ hw _
    exact h.worked hO hw
  · intro _ _ _ _ _ _ _ s d s' d' h _ hw _ _ _
    exact (h.worked hO hw).cleared

/-! ### The steps -/

/-- A new handler holds no stream. -/
theorem Unheard.fresh (h : Unheard E m w w') {k' : ℤ} {p' : SharedPtr} (hp : w'.look m k' = some p')
    (hnew : w.nobj ≤ p'.obj) : (w'.objs p'.obj).Fresh :=
  h.still.fresh _ hnew (h.server k' p' hp).obj

/-- Whose request was not touched, and who was there before. -/
theorem Unheard.rests (h : Unheard E m w w') (hS : Server m w) {k' : ℤ} {p' : SharedPtr}
    (hp : w.look m k' = some p') : (w.objs p'.obj).Rests (w'.objs p'.obj) :=
  h.still.old _ (.inl (hS k' p' hp).obj)

/-- What it leaves queued was queued before. -/
theorem Unheard.queued (h : Unheard E m w w') {P : HV → Prop} (hq : ∀ i, ∀ r ∈ (w.objs i).virus.resp, P r) :
    ∀ i, ∀ r ∈ (w'.objs i).virus.resp, P r := by
  intro i r hr
  by_cases hi : i < w.nobj ∨ w'.nobj ≤ i
  · exact hq i r ((h.still.old i hi).resp hr)
  · rw [(h.still.fresh i (by omega) (by omega)).resp] at hr
    cases hr

/-- Nobody begins to connect. -/
theorem Unheard.idle (h : Unheard E m w w') (hS : Server m w)
    (hidle : ∀ k p, w.look m k = some p → (w.objs p.obj).connecting = false) :
    ∀ k p, w'.look m k = some p → (w'.objs p.obj).connecting = false := by
  intro k p hp
  rcases h.registered k p hp with ⟨hold, -⟩ | ⟨hnew, -⟩
  · by_contra hcon
    have hcon' := (h.rests hS hold).connecting (by simpa using hcon)
    rw [hidle k p hold] at hcon'
    cases hcon'
  · exact (h.fresh hp hnew).connecting

theorem World.readBy_connecting (w : World) (this i : ℕ) (virus : VirusHandler) (d : Disk) :
    ((w.readBy this virus d).objs i).connecting = (w.objs i).connecting := by
  rcases eq_or_ne i this with rfl | hi
  · rw [World.readBy_self]
  · rw [World.readBy_ne w virus d hi]

/-- From a handler that is yet to be made nothing is received. -/
theorem Server.unmade_update (hS : Server m w) (hp : w.look m k = some p) (hun : ∀ i, w.nobj ≤ i → heard i = [])
    (bs : List UInt8) : ∀ i, w.nobj ≤ i → Function.update heard p.obj bs i = [] := by
  intro i hi
  have hlt := (hS k p hp).obj
  have hne : i ≠ p.obj := by omega
  rw [Function.update_of_ne hne]
  exact hun i hi

/-- **A step that touches no session.** -/
theorem Sessions.unheard (h : Sessions E m heard w) (hu : Unheard E m w w') : Sessions E m heard w' := by
  -- who holds a stream held it before
  have hholds : ∀ k p fp, w'.look m k = some p → (w'.objs p.obj).cls = .virusHandler →
      (w'.objs p.obj).virus.req.Holds fp → w.look m k = some p ∧ (w.objs p.obj).cls = .virusHandler ∧
        (w.objs p.obj).virus.req.Holds fp := by
    intro k p fp hp hc hh
    rcases hu.registered k p hp with ⟨hold, -⟩ | ⟨hnew, -⟩
    · have hr := hu.rests h.server hold
      exact ⟨hold, by rwa [← hr.cls], by rwa [← hr.req]⟩
    · exact absurd hh ((hu.fresh hp hnew).holds fp)
  have hanswers : w'.Answers E := hu.queued h.answers
  refine ⟨hu.server, hanswers, by rw [hu.disk]; exact h.sound, hu.idle h.server h.idle,
    fun i hi => h.unmade i (hu.still.nobj.trans hi), fun k p hp hc => ?_, fun hE k p hp hc => ?_,
    fun k p k' p' fp hp hp' hne hc hc' hh hh' => ?_⟩
  · rcases hu.registered k p hp with ⟨hold, -⟩ | ⟨hnew, -⟩
    · have hr := hu.rests h.server hold
      rw [hr.req, hu.disk]
      exact h.pends k p hold (by rwa [← hr.cls])
    · -- a new client has sent nothing
      obtain ⟨storage, head, hreq⟩ := (hu.fresh hp hnew).req
      rw [h.unmade p.obj hnew, hreq, Scanner.mode_none (requests.next_nil _),
        Scanner.rest_none (requests.next_nil _)]
      exact .new storage head _
  · rcases hu.registered k p hp with ⟨hold, hwire⟩ | ⟨hnew, hout⟩
    · have hr := hu.rests h.server hold
      have howed := hwire hE
      rw [hanswers.owed, h.answers.owed] at howed
      exact howed.trans (h.wire hE k p hold (by rwa [← hr.cls]))
    · -- and nothing was sent to it
      rw [h.unmade p.obj hnew, World.wire, hout, (hu.fresh hp hnew).resp, Scanner.items_none (requests.next_nil _)]
      rfl
  · obtain ⟨hold, hc₁, hh₁⟩ := hholds k p fp hp hc hh
    obtain ⟨hold', hc₂, hh₂⟩ := hholds k' p' fp hp' hc' hh'
    exact h.apart k p k' p' fp hold hold' hne hc₁ hc₂ hh₁ hh₂

/-- The streams of the other clients. -/
def World.others (w : World) (m : ℕ) (k : ℤ) : Set ℕ :=
  {fp | ∃ k' p', k' ≠ k ∧ w.look m k' = some p' ∧ (w.objs p'.obj).cls = .virusHandler ∧
    (w.objs p'.obj).virus.req.Holds fp}

/-- A stream that a request has is open. -/
theorem HV.Pends.isOpen {stale : Bool} {rest : List UInt8} (h : s.Pends d stale rest) (hh : s.Holds fp) :
    d.streams fp ≠ none := by
  obtain ⟨c, hval, hw⟩ := hh
  obtain ⟨st, hst⟩ := (h.hasFile c hval).isOpen
  obtain ⟨fp', hw', hopen⟩ := stream_inv hst
  obtain rfl : fp' = fp := Option.some.inj (hw'.symm.trans hw)
  rw [hopen]
  simp

theorem Sessions.others_open (h : Sessions E m heard w) : ∀ fp ∈ w.others m k, w.disk.streams fp ≠ none := by
  rintro fp ⟨k', p', -, hp', hc', hh'⟩
  exact (h.pends k' p' hp' hc').isOpen hh'

theorem Sessions.apart_of (h : Sessions E m heard w) (hp : w.look m k = some p)
    (hc : (w.objs p.obj).cls = .virusHandler) :
    Apart (w.others m k) w.disk (w.objs p.obj).virus.req w.disk := by
  refine ⟨h.sound, fun _ _ => rfl, ?_⟩
  rintro fp ⟨k', p', hne, hp', hc', hh'⟩ hh
  exact h.apart k p k' p' fp hp hp' hne hc hc' hh hh'

/-- Bytes that the loop of `handle_read` has taken do not begin inside a header. -/
theorem HV.Pends.cut {stale : Bool} {rest buf : List UInt8} {virus virus' : VirusHandler}
    (h : virus.req.Pends d stale rest) (hn : buf ≠ [])
    (hret : Loop.Returns (VirusHandler.readBody C) ⟨virus, d, buf, buf.length⟩ (virus', d')) :
    rest = [] ∨ 8 ≤ rest.length := by
  by_contra hcut
  obtain ⟨h0, h8⟩ := not_or.1 hcut
  exact h.not_reads h0 (by omega) hn (.cons hret (.nil virus' d'))

/-- **A client whose bytes are read** goes on in its session, and no other is touched. -/
theorem Sessions.reads (h : Sessions E m heard w) (hE : E.toLibC.Succeeds) (hp : w.look m k = some p)
    (hc : (w.objs p.obj).cls = .virusHandler) {buf : List UInt8} (hn : buf ≠ []) (hlen : buf.length ≤ 65535)
    {virus : VirusHandler} (hret : Loop.Returns (VirusHandler.readBody E.toLibC)
      ⟨(w.objs p.obj).virus, w.disk, buf, buf.length⟩ (virus, d))
    (hS : Server m (w.readBy p.obj virus d)) :
    Sessions E m (Function.update heard p.obj (heard p.obj ++ buf)) (w.readBy p.obj virus d) := by
  have hown := h.pends k p hp hc
  obtain ⟨virus', d', hret', hpend, hresp, -, hap⟩ := readLoop_scans hE (apart_rules E.toLibC h.others_open) []
    hown (hown.cut hn hret) hn (by omega) (fun hf => hf.elim) (h.apart_of hp hc)
  obtain ⟨rfl, rfl⟩ := Prod.mk.inj (hret.unique hret')
  rw [← Scanner.mode_append, ← Scanner.rest_append] at hpend
  have hne : ∀ k' p', k' ≠ k → w.look m k' = some p' → p'.obj ≠ p.obj :=
    fun k' p' hk hp' => h.server.obj_ne hp hp' hk
  have hother : ∀ k' p', k' ≠ k → w.look m k' = some p' →
      (w.readBy p.obj virus d).objs p'.obj = w.objs p'.obj :=
    fun k' p' hk hp' => World.readBy_ne w virus d (hne k' p' hk hp')
  have hself : ∀ p', w.look m k = some p' → p' = p := fun p' hp' => Option.some.inj (hp'.symm.trans hp)
  refine ⟨hS, fun i r hr => ?_, hap.sound, fun k' p' hp' => (w.readBy_connecting ..).trans (h.idle k' p' hp'),
    h.server.unmade_update hp h.unmade _, fun k' p' hp' hc' => ?_, fun hw k' p' hp' hc' => ?_,
    fun k₁ p₁ k₂ p₂ fp hp₁ hp₂ hne₁₂ hc₁ hc₂ hh₁ hh₂ => ?_⟩
  · rcases eq_or_ne i p.obj with rfl | hi
    · rw [World.readBy_self, hresp, List.mem_append] at hr
      rcases hr with hr | hr
      · exact h.answers _ r hr
      · obtain ⟨q, -, rfl⟩ := List.mem_map.1 hr
        exact ⟨q.id, rfl⟩
    · rw [World.readBy_ne w virus d hi] at hr
      exact h.answers i r hr
  · rcases eq_or_ne k' k with rfl | hk
    · obtain rfl := hself p' hp'
      rw [World.readBy_self, Function.update_self]
      exact hpend
    · -- another client: its stream is as before
      have hk' := hother k' p' hk hp'
      rw [hk'] at hc' ⊢
      rw [Function.update_of_ne (hne k' p' hk hp')]
      exact (h.pends k' p' hp' hc').mono fun fp hh => hap.same fp ⟨k', p', hk, hp', hc', hh⟩
  · rcases eq_or_ne k' k with rfl | hk
    · -- the answers to the new requests come behind the others
      obtain rfl := hself p' hp'
      have hwire := h.wire hw _ _ hp hc
      unfold World.wire at hwire ⊢
      rw [World.readBy_self, Function.update_self]
      dsimp only
      rw [hresp, List.flatMap_append, replies_wire, ← List.append_assoc,
        Scanner.items_append requests false (heard p'.obj), List.map_append, wires_append, ← hwire]
      rfl
    · have hk' := hother k' p' hk hp'
      rw [hk'] at hc' ⊢
      rw [Function.update_of_ne (hne k' p' hk hp')]
      exact h.wire hw k' p' hp' hc'
  · -- the stream of the client that was read from is none of the others'
    have hfree : ∀ k' p', k' ≠ k → w.look m k' = some p' →
        ((w.readBy p.obj virus d).objs p'.obj).cls = .virusHandler →
          ((w.readBy p.obj virus d).objs p'.obj).virus.req.Holds fp → ¬ virus.req.Holds fp := by
      intro k' p' hk hp' hc' hh
      rw [hother k' p' hk hp'] at hc' hh
      exact hap.free fp ⟨k', p', hk, hp', hc', hh⟩
    by_cases hk₁ : k₁ = k
    · rw [hk₁] at hp₁ hne₁₂
      obtain rfl := hself p₁ hp₁
      rw [World.readBy_self] at hh₁
      exact hfree k₂ p₂ hne₁₂ hp₂ hc₂ hh₂ hh₁
    · by_cases hk₂ : k₂ = k
      · rw [hk₂] at hp₂
        obtain rfl := hself p₂ hp₂
        rw [World.readBy_self] at hh₂
        exact hfree k₁ p₁ hk₁ hp₁ hc₁ hh₁ hh₂
      · rw [hother k₁ p₁ hk₁ hp₁] at hc₁ hh₁
        rw [hother k₂ p₂ hk₂ hp₂] at hc₂ hh₂
        exact h.apart k₁ p₁ k₂ p₂ fp hp₁ hp₂ hne₁₂ hc₁ hc₂ hh₁ hh₂

/-! ### Runs -/

/-- What a step of the server is to its clients: none of them is heard, or the loop of `handle_read` runs
over bytes of one. -/
inductive Server.Heard (E : Env) (m : ℕ) (heard : ℕ → List UInt8) (w : World) :
    (ℕ → List UInt8) → World → Prop
  | unheard {w' : World} (hu : Unheard E m w w') : Heard E m heard w heard w'
  | reads {k : ℤ} {p : SharedPtr} {buf : List UInt8} {virus : VirusHandler} {d : Disk} {log : List Act}
      (hp : w.look m k = some p) (hc : (w.objs p.obj).cls = .virusHandler) (hn : buf ≠ [])
      (hlen : buf.length ≤ 65535)
      (hret : Loop.Returns (VirusHandler.readBody E.toLibC)
        ⟨(w.objs p.obj).virus, w.disk, buf, buf.length⟩ (virus, d))
      (hS : Server m (({ w with log := log } : World).readBy p.obj virus d)) :
      Heard E m heard w (Function.update heard p.obj (heard p.obj ++ buf))
        (({ w with log := log } : World).readBy p.obj virus d)

/-- **The steps of the server** are of these two kinds, whatever the library does. -/
theorem Server.Hear.sorted {heard' : ℕ → List UInt8} (hs : Server.Hear E m heard w heard' w')
    (hserver : Server m w) (hplain : w.Plain)
    (hidle : ∀ k p, w.look m k = some p → (w.objs p.obj).connecting = false) :
    Server.Heard E m heard w heard' w' := by
  cases hs with
  | server host port hrun => exact .unheard (tcpServer_unheard hserver hrun)
  | select => exact .unheard (.soft hserver rfl rfl rfl rfl rfl rfl rfl)
  | @event _ k p bit hp hrun =>
    set w₁ := w.logged (.event p.obj k bit) with hw₁
    have hS₁ : Server m w₁ := hserver.congr rfl rfl rfl rfl rfl
    have hS := (event_stepped (E := E) hS₁ hp bit).server
    rw [hrun, final_ok] at hS
    by_cases hg : GetsBytes E w₁ p.obj bit
    · obtain ⟨hn, hlen, hc, virus, d, rfl, hret⟩ := event_reads hS₁ hp (hidle k p hp) hg hrun
      exact .reads hp hc hn hlen hret hS
    · have hu : Unheard E m w₁ w' := event_unheard hS₁ hplain hp (hidle k p hp) hg hrun
      have hnil : w.gets E p.obj bit = [] := gets_nil hg
      rw [hnil, List.append_nil, Function.update_eq_self]
      exact .unheard hu.of_logged

theorem Server.Hear.kinds {heard' : ℕ → List UInt8} (hs : Server.Hear E m heard w heard' w')
    (h : Sessions E m heard w) : Server.Heard E m heard w heard' w' := hs.sorted h.server h.answers.plain h.idle

theorem Sessions.init : Sessions E m (fun _ => []) .init := by
  have hlook : ∀ k p, World.init.look m k ≠ some p := by
    intro k p hp
    rw [init_look] at hp
    cases hp
  refine ⟨fun k p hp => absurd hp (hlook k p), fun i r hr => ?_, Disk.empty_sound,
    fun k p hp => absurd hp (hlook k p), fun _ _ => rfl, fun k p hp => absurd hp (hlook k p),
    fun _ k p hp => absurd hp (hlook k p), fun k p _ _ _ hp => absurd hp (hlook k p)⟩
  cases hr

/-- **The invariant is kept.** -/
theorem Sessions.hear (h : Sessions E m heard w) (hE : E.toLibC.Succeeds) {heard' : ℕ → List UInt8}
    (hs : Server.Hear E m heard w heard' w') : Sessions E m heard' w' := by
  cases hs.kinds h with
  | unheard hu => exact h.unheard hu
  | @reads k p buf virus d log hp hc hn hlen hret hS =>
    have h₁ : Sessions E m heard { w with log := log } := h.unheard (.soft h.server rfl rfl rfl rfl rfl rfl rfl)
    exact h₁.reads hE (k := k) hp hc hn hlen hret hS

/-- The invariant holds in every run. -/
theorem Server.Hears.sessions (h : Server.Hears E m heard w) (hE : E.toLibC.Succeeds) : Sessions E m heard w := by
  induction h with
  | init => exact .init
  | step _ hs ih => exact ih.hear hE hs

/-- What was received in a run by rounds is known. -/
theorem Server.Runs.hears {A : ℕ → Bit → World → Prop} (h : Server.Runs E m A w) :
    ∃ heard, Server.Hears E m heard w := by
  induction h with
  | refl => exact ⟨_, .init⟩
  | tail _ hm ih =>
    obtain ⟨heard, hh⟩ := ih
    cases hm with
    | server host port hrun => exact ⟨_, hh.step (.server host port hrun)⟩
    | select w hlow => exact ⟨_, hh.step (.select hlow)⟩
    | event hp _ hrun => exact ⟨_, hh.step (.event hp hrun)⟩

/-- **The server serves every client by itself.** Whatever listeners it opens, whatever `select`, `accept`
and `recv` answer and however the events of the clients are interleaved: a client that is registered was
sent, or is still to be sent, the answers to the requests in its own bytes, one for each and in their
order, and its handler stands where the scanner stands on these bytes. -/
theorem sessions_apart (hE : E.toLibC.Succeeds) (hsend : E.SendsWhole) :
    (∀ w, Server.Reach E m w → ∃ heard, Server.Hears E m heard w) ∧
      ∀ heard w, Server.Hears E m heard w → ∀ k p, w.look m k = some p →
        (w.objs p.obj).cls = .virusHandler → Session E w k (w.objs p.obj) (heard p.obj) := by
  refine ⟨fun w h => ?_, fun heard w h k p hp hc => ?_⟩
  · exact (h.moments (C := fun _ _ _ => True) fun _ _ _ => trivial).hears
  · have hs := h.sessions hE
    have hwire := hs.wire hsend k p hp hc
    refine ⟨hwire, hs.pends k p hp hc, fun fs hlarge hbytes => ?_⟩
    rw [hwire]
    exact answers_of_wires hlarge hbytes

/-- The process after the client of `accepted` has sent its bytes. -/
def World.answered (bs : List UInt8) : World :=
  final (BaseSocket.handleEvent (.oneClient bs) 1 .read ((World.accepted bs).logged (.event 1 5 .read)))

/-- The client of `accepted` is there, and nothing was received from it. -/
theorem accepted_hears (bs : List UInt8) (h : isOk (BaseSocket.handleEvent (.oneClient bs) 0 .read
    ((World.opened (.oneClient bs) 0).logged (.event 0 3 .read))) = true)
    (hp : (World.opened (.oneClient bs) 0).look 0 3 = some ⟨0, 0⟩) :
    ∃ heard, Server.Hears (.oneClient bs) 0 heard (.accepted bs) ∧ heard 1 = [] := by
  have hopened : Server.Hears (.oneClient bs) 0 (fun _ => []) (World.opened (.oneClient bs) 0) := by
    obtain ⟨sock, w', hnew, -⟩ := tcpServer_new (.oneClient bs) World.init none 7890 0
    unfold World.opened
    rw [hnew]
    exact .step .init (.server none 7890 hnew)
  refine ⟨_, hopened.step (.event hp (eq_ok_final h)), ?_⟩
  exact Function.update_of_ne one_ne_zero _ _

/-- What was received when it has sent its bytes. -/
theorem answered_hears : ∃ heard, Server.Hears (.oneClient smallRequest) 0 heard (.answered smallRequest) ∧
    heard 1 = smallRequest := by
  obtain ⟨heard, haccept, hnil⟩ := accepted_hears smallRequest (by decide +kernel) (by decide +kernel)
  have hread : BaseSocket.handleEvent (.oneClient smallRequest) 1 .read
      ((World.accepted smallRequest).logged (.event 1 5 .read)) = .ok ⟨⟩ (.answered smallRequest) :=
    eq_ok_final (by decide +kernel)
  refine ⟨_, haccept.step (.event (k := 5) (p := ⟨1, 1⟩) (by decide +kernel) hread), ?_⟩
  rw [Function.update_self, hnil]
  decide +kernel

/-- One client with one small request: its answer is queued. -/
theorem sessions_apart_one : ∃ heard, Server.Hears (.oneClient smallRequest) 0 heard (.answered smallRequest) ∧
    heard 1 = smallRequest ∧
      Session (.oneClient smallRequest) (.answered smallRequest) 5
        ((World.answered smallRequest).objs 1) (heard 1) := by
  obtain ⟨heard, hrun, hheard⟩ := answered_hears
  refine ⟨heard, hrun, hheard, ?_⟩
  exact (sessions_apart LibC.steady_succeeds (fun _ => .inl rfl)).2 heard _ hrun 5 ⟨1, 1⟩ (by decide +kernel)
    (by decide +kernel)

end DocFerry
