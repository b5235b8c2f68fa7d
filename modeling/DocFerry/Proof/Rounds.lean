import DocFerry.Proof.Conversation
import DocFerry.Proof.Listens

/-!
# No answer outlasts a round

What a round of `do_select` makes of the clients, bit by bit.

* `Later`: what holds of a later moment of a run.
* `deliver_answers`, `deliveries_answer`: a client whose queue is written is owed nothing, until it is read
  from again, and that comes first in a round.
* `round_answers`: who can be written to in a round has its answers when the round is over.
* `client_served`: so a client that has sent its file prints `OK` after the next such round.
-/

namespace DocFerry

open Bytes Prog

/-- `w'` comes later in a run than `w`: nothing that was received or sent is taken back, and who is still
registered was registered before. -/
structure Later (E : Env) (m : ℕ) (heard : ℕ → List UInt8) (w : World) (heard' : ℕ → List UInt8) (w' : World) :
    Prop where
  hears : Server.Hears E m heard' w'
  nobj : w.nobj ≤ w'.nobj
  grows : ∀ i, heard i <+: heard' i
  client : ∀ k p, p.obj < w.nobj → w'.look m k = some p →
    w.look m k = some p ∧ (w'.objs p.obj).cls = (w.objs p.obj).cls
  sent : E.SendsWhole → ∀ k p, p.obj < w.nobj → w'.look m k = some p → w.out k <+: w'.out k

variable {E : Env} {m : ℕ} {heard heard' heard'' : ℕ → List UInt8} {w w' w'' : World} {k : ℤ} {p : SharedPtr}
  {b : ℤ × Bit} {bit : Bit} {l : List (ℤ × Bit)}

theorem Later.refl (h : Server.Hears E m heard w) : Later E m heard w heard w :=
  ⟨h, le_rfl, fun _ => List.prefix_rfl, fun _ _ _ hp => ⟨hp, rfl⟩, fun _ _ _ _ _ => List.prefix_rfl⟩

theorem Later.trans (h : Later E m heard w heard' w') (h' : Later E m heard' w' heard'' w'') :
    Later E m heard w heard'' w'' := by
  refine ⟨h'.hears, h.nobj.trans h'.nobj, fun i => (h.grows i).trans (h'.grows i), fun k p hlt hp => ?_,
    fun hE k p hlt hp => ?_⟩
  · obtain ⟨hp', hc'⟩ := h'.client k p (hlt.trans_le h.nobj) hp
    obtain ⟨hp₀, hc⟩ := h.client k p hlt hp'
    exact ⟨hp₀, hc'.trans hc⟩
  · obtain ⟨hp', -⟩ := h'.client k p (hlt.trans_le h.nobj) hp
    exact (h.sent hE k p hlt hp').trans (h'.sent hE k p (hlt.trans_le h.nobj) hp)

/-- After a step it is later. -/
theorem Server.Hear.later (hs : Server.Hear E m heard w heard' w') (h : Server.Hears E m heard w)
    (hE : E.toLibC.Succeeds) : Later E m heard w heard' w' := by
  have hkind := hs.kinds (h.sessions hE)
  obtain ⟨hnobj, hgrows⟩ := hkind.grows
  refine ⟨h.step hs, hnobj, hgrows, fun k p hlt hp => hkind.registered hp hlt, fun hsend k p hlt hp => ?_⟩
  exact (hkind.sent hsend (hkind.registered hp hlt).1).1

theorem World.IsClient.later (h : w.IsClient m k p) (hl : Later E m heard w heard' w') (hlt : p.obj < w.nobj)
    (hp : w'.look m k = some p) : w'.IsClient m k p :=
  ⟨hp, (hl.client k p hlt hp).2.trans h.2⟩

/-- For whom nothing is received nothing is queued. -/
theorem Server.Heard.rests (h : Server.Heard E m heard w heard' w') {i : ℕ} (hi : i < w.nobj)
    (hq : heard' i = heard i) : (w'.objs i).virus.resp ⊆ (w.objs i).virus.resp := by
  cases h with
  | unheard hu => exact (hu.still.old i (.inl hi)).resp
  | @reads k p buf virus d log _ _ hn _ _ _ =>
    have hne : i ≠ p.obj := by
      rintro rfl
      rw [Function.update_self] at hq
      exact hn (List.append_right_eq_self.1 hq)
    rw [World.readBy_ne _ virus d hne]
    exact List.Subset.refl _

/-! ### Deliveries -/

/-- **A delivery** is the event, if its handler still wants it. -/
theorem deliver_eq (hp : w.look m b.1 = some p) :
    (serverTable E m).deliver b w =
      if (serverTable E m).wants w p b.2 = true
      then BaseSocket.handleEvent E p.obj b.2 (w.logged (.event p.obj b.1 b.2))
      else .ok ⟨⟩ w := by
  have hmap : ((serverTable E m).map w)[b.1]? = some p := hp
  unfold Table.deliver
  rw [get_bind, hmap]
  dsimp only
  split
  · rfl
  · rfl

/-- A client that wants to write has something queued. -/
theorem wants_write (hc : (w.objs p.obj).cls = .virusHandler) :
    (serverTable E m).wants w p .write = true ↔ (w.objs p.obj).virus.resp ≠ [] := by
  change BaseSocket.writable (w.objs p.obj) = true ↔ _
  unfold BaseSocket.writable
  rw [hc]
  cases (w.objs p.obj).virus.resp with
  | nil => simp
  | cons r rest => simp

/-- A client does not listen. -/
theorem client_deaf (h : Server.Hears E m heard w) (hE : E.toLibC.Succeeds) (hp : w.IsClient m k p) :
    (w.objs p.obj).accepting = false := by
  by_contra hacc
  have hc := (h.deaf hE p.obj (Bool.eq_true_of_not_eq_false hacc)).2
  rw [hp.2] at hc
  cases hc

/-- **A client that was written to** has no answer left. -/
theorem write_empties (h : Server.Hears E m heard w) (hE : E.toLibC.Succeeds) (hsend : E.SendsWhole)
    (hp : w.IsClient m k p)
    (hrun : BaseSocket.handleEvent E p.obj .write (w.logged (.event p.obj k .write)) = .ok ⟨⟩ w') :
    (w'.objs p.obj).virus.resp = [] := by
  have hs := h.sessions hE
  have hdeaf := client_deaf h hE hp
  set w₁ := w.logged (.event p.obj k .write) with hw₁
  have hS₁ : Server m w₁ := hs.server.congr rfl rfl rfl rfl rfl
  have hwrite : BaseSocket.handleEvent E p.obj .write w₁ = BaseSocket.handleWrite E p.obj w₁ :=
    handleWriteEvent_writing hdeaf (hs.idle k p hp.1)
  rw [hwrite] at hrun
  exact (handleWrite_out (w := w₁) hS₁ hs.answers.plain hsend hp.1 hp.2 hrun).2

/-- **One delivery**: to whom it writes nothing is owed, and nobody is owed more from whom it does not
read. -/
theorem deliver_answers (h : Server.Hears E m heard w) (hE : E.toLibC.Succeeds) (hsend : E.SendsWhole)
    (hrun : (serverTable E m).deliver b w = .ok ⟨⟩ w') :
    ∃ heard', Later E m heard w heard' w' ∧ ∀ k p, w.IsClient m k p → w'.look m k = some p →
      (b = (k, .write) → (w'.objs p.obj).virus.resp = []) ∧
        (b ≠ (k, .read) → (w.objs p.obj).virus.resp = [] → (w'.objs p.obj).virus.resp = []) := by
  obtain ⟨kb, bit⟩ := b
  cases hlook : w.look m kb with
  | none =>
    -- nobody is registered
    have hidle : (serverTable E m).deliver (kb, bit) w = .ok ⟨⟩ w := by
      rcases deliver_cases E m w (kb, bit) with hidle | ⟨p, hp, -⟩
      · exact hidle
      · rw [show w.look m kb = some p from hp] at hlook
        cases hlook
    rw [hidle] at hrun
    cases hrun
    refine ⟨heard, .refl h, fun k p hp _ => ⟨fun heq => ?_, fun _ => id⟩⟩
    rw [(Prod.mk.inj heq).1, hp.1] at hlook
    cases hlook
  | some pb =>
    rw [deliver_eq (p := pb) hlook] at hrun
    by_cases hwants : (serverTable E m).wants w pb bit = true
    · -- the event
      rw [if_pos hwants] at hrun
      have hs : Server.Hear E m heard w _ w' := .event hlook hrun
      have hses := h.sessions hE
      have hkind := hs.kinds hses
      refine ⟨_, hs.later h hE, fun k p hp hp' => ⟨fun heq => ?_, fun hne hnil => ?_⟩⟩
      · obtain ⟨rfl, rfl⟩ := Prod.mk.inj heq
        obtain rfl : pb = p := Option.some.inj (hlook.symm.trans hp.1)
        exact write_empties h hE hsend hp hrun
      · apply List.subset_nil.1
        rw [← hnil]
        apply hkind.rests (hses.server k p hp.1).obj
        rcases eq_or_ne kb k with rfl | hkb
        · -- no bytes come in another event than the reading one
          obtain rfl : pb = p := Option.some.inj (hlook.symm.trans hp.1)
          have hgets : w.gets E pb.obj bit = [] := by
            apply gets_nil
            rintro ⟨rfl, -⟩
            exact hne rfl
          rw [hgets, List.append_nil, Function.update_eq_self]
        · exact Function.update_of_ne (hses.server.obj_ne hlook hp.1 (Ne.symm hkb)) _ _
    · rw [if_neg hwants] at hrun
      cases hrun
      refine ⟨heard, .refl h, fun k p hp _ => ⟨fun heq => ?_, fun _ => id⟩⟩
      obtain ⟨rfl, rfl⟩ := Prod.mk.inj heq
      obtain rfl : pb = p := Option.some.inj (hlook.symm.trans hp.1)
      exact not_not.1 fun hne => hwants ((wants_write hp.2).2 hne)

/-- **The deliveries of a round**: who has its writing bit among them is owed nothing at the end, since the
reading bit comes before it. -/
theorem deliveries_answer (h : Server.Hears E m heard w) (hE : E.toLibC.Succeeds) (hsend : E.SendsWhole)
    (hl : l.Pairwise Before) (hrun : l.forM (serverTable E m).deliver w = .ok ⟨⟩ w') :
    ∃ heard', Later E m heard w heard' w' ∧ ∀ k p, w.IsClient m k p → w'.look m k = some p →
      ((k, .write) ∈ l ∨ (w.objs p.obj).virus.resp = [] ∧ (k, .read) ∉ l) →
        (w'.objs p.obj).virus.resp = [] := by
  induction l generalizing heard w with
  | nil =>
    cases hrun
    refine ⟨heard, .refl h, fun k p _ _ hor => ?_⟩
    rcases hor with hin | ⟨hnil, -⟩
    · cases hin
    · exact hnil
  | cons b l ih =>
    obtain ⟨u, w₁, hfirst, hrest⟩ := bind_eq_ok.1
      (show ((serverTable E m).deliver b >>= fun _ => l.forM (serverTable E m).deliver) w = _ from hrun)
    obtain ⟨heard₁, hlater₁, hone⟩ := deliver_answers h hE hsend hfirst
    obtain ⟨heard', hlater', hall⟩ := ih hlater₁.hears hl.of_cons hrest
    refine ⟨heard', hlater₁.trans hlater', fun k p hp hp' hor => ?_⟩
    have hlt := ((h.sessions hE).server k p hp.1).obj
    have hp₁ := (hlater'.client k p (hlt.trans_le hlater₁.nobj) hp').1
    obtain ⟨hwrite, hother⟩ := hone k p hp hp₁
    apply hall k p (hp.later hlater₁ hlt hp₁) hp'
    rcases hor with hin | ⟨hnil, hnot⟩
    · rcases List.mem_cons.1 hin with rfl | hin
      · -- the client is written to: its reading bit had its turn before
        refine .inr ⟨hwrite rfl, fun hread => ?_⟩
        rcases List.rel_of_pairwise_cons hl hread with hlt' | ⟨-, hrank⟩
        · exact lt_irrefl _ hlt'
        · simp [Bit.rank] at hrank
      · exact .inl hin
    · refine .inr ⟨hother (fun heq => hnot ?_) hnil, fun hread => hnot (List.mem_cons_of_mem _ hread)⟩
      rw [heq]
      exact List.mem_cons_self

/-! ### Rounds -/

/-- The sockets that pass a test. -/
theorem mem_socks {f : SharedPtr → Bool} :
    k ∈ (serverTable E m).socks w f ↔ ∃ p, w.look m k = some p ∧ f p = true := by
  simp only [Table.socks, socksOf, List.mem_toFinset, List.mem_map, List.mem_filter]
  constructor
  · rintro ⟨⟨k', p⟩, ⟨hin, hf⟩, rfl⟩
    exact ⟨p, Std.TreeMap.mem_toList_iff_getElem?_eq_some.1 hin, hf⟩
  · rintro ⟨p, hp, hf⟩
    exact ⟨(k, p), ⟨Std.TreeMap.mem_toList_iff_getElem?_eq_some.2 hp, hf⟩, rfl⟩

/-- What `select` leaves of the bits. -/
theorem osSelect_ready {nfds : ℤ} {req : FdSets} {r wr e : ℤ → Bool} (h : E.select w.nselect = .ready r wr e) :
    osSelect E nfds req w =
      .ok ((⟨req.r.filter (r · = true), req.w.filter (wr · = true), req.e.filter (e · = true)⟩ : FdSets).card,
        ⟨req.r.filter (r · = true), req.w.filter (wr · = true), req.e.filter (e · = true)⟩)
        { w with nselect := w.nselect + 1 } := by
  unfold osSelect
  rw [get_bind, h]
  rfl

/-- A client with answers is asked for. -/
theorem mem_interest_w (h : Server.Hears E m heard w) (hE : E.toLibC.Succeeds) (hp : w.IsClient m k p)
    (hresp : (w.objs p.obj).virus.resp ≠ []) : k ∈ ((serverTable E m).interest w).w := by
  refine mem_socks.2 ⟨p, hp.1, ?_⟩
  have hw : BaseSocket.writable (w.objs p.obj) = true := (wants_write (E := E) (m := m) hp.2).2 hresp
  have hacc : (w.objs p.obj).accepting = false := client_deaf h hE hp
  change (BaseSocket.writable (w.objs p.obj) && !(w.objs p.obj).accepting) = true
  rw [hw, hacc]
  rfl

/-- **A round** in which `select` answers: who has answers and can be written to has none left. -/
theorem doSelect_answers (h : Server.Hears E m heard w) (hE : E.toLibC.Succeeds) (hsend : E.SendsWhole)
    (hrun : doSelect E m w = .ok ⟨⟩ w') :
    ∃ heard', Later E m heard w heard' w' ∧ ∀ r wr e, E.select w.nselect = .ready r wr e →
      ∀ k p, w.IsClient m k p → w'.look m k = some p → (w.objs p.obj).virus.resp ≠ [] → wr k = true →
        (w'.objs p.obj).virus.resp = [] := by
  have hses := h.sessions hE
  rcases doSelect_cases hses.server hrun with ⟨hmax, hsame⟩ | ⟨fd, retv, sets, hlow, hsel, hend⟩
  · -- nobody is asked for
    rw [hsame]
    refine ⟨heard, .refl h, fun r wr e _ k p hp _ hresp _ => ?_⟩
    have hin : k ∈ ((serverTable E m).interest w).e := by
      have hw : BaseSocket.writable (w.objs p.obj) = true := (wants_write (E := E) (m := m) hp.2).2 hresp
      refine mem_socks.2 ⟨p, hp.1, ?_⟩
      change (BaseSocket.readable (w.objs p.obj) || BaseSocket.writable (w.objs p.obj)) = true
      rw [hw, Bool.or_true]
    rw [Finset.max_eq_bot.1 hmax] at hin
    cases hin
  have hselect : Server.Hear E m heard w heard { w with nselect := w.nselect + 1 } := .select hlow
  have hfirst := hselect.later h hE
  rcases hend with ⟨hr, rfl⟩ | hbits
  · -- an error is no answer
    refine ⟨heard, hfirst, fun r wr e hready => ?_⟩
    rw [osSelect_ready hready] at hsel
    have hcard := congrArg Prod.fst (EStateM.Result.ok.inj hsel).1
    dsimp only at hcard
    omega
  · obtain ⟨heard', hlater, hall⟩ := deliveries_answer hfirst.hears hE hsend sets.bits_pairwise hbits
    refine ⟨heard', hfirst.trans hlater, fun r wr e hready k p hp hp' hresp hwr => ?_⟩
    apply hall k p hp hp'
    left
    rw [osSelect_ready hready] at hsel
    obtain rfl := (Prod.mk.inj (EStateM.Result.ok.inj hsel).1).2
    exact FdSets.mem_bits.2 (Finset.mem_filter.2 ⟨mem_interest_w h hE hp hresp, hwr⟩)

/-- **What a client has been sent when a round is over**, in which it could be written to. -/
theorem doSelect_settles (h : Server.Hears E m heard w) (hE : E.toLibC.Succeeds) (hsend : E.SendsWhole)
    (hrun : doSelect E m w = .ok ⟨⟩ w') :
    ∃ heard', Later E m heard w heard' w' ∧ ∀ r wr e, E.select w.nselect = .ready r wr e →
      ∀ k p, w.IsClient m k p → w'.look m k = some p → wr k = true →
        due (heard p.obj) <+: w'.out k ∧
          ((w.objs p.obj).virus.resp ≠ [] → w'.out k = due (heard' p.obj) ∧ (w'.objs p.obj).virus.resp = []) := by
  obtain ⟨heard', hlater, hall⟩ := doSelect_answers h hE hsend hrun
  refine ⟨heard', hlater, fun r wr e hready k p hp hp' hwr => ?_⟩
  have hses := h.sessions hE
  have hlt := (hses.server k p hp.1).obj
  by_cases hresp : (w.objs p.obj).virus.resp = []
  · -- it has its answers already
    have hwire := hses.wire hsend k p hp.1 hp.2
    rw [World.wire, hresp, List.flatMap_nil, List.append_nil] at hwire
    refine ⟨?_, fun hne => absurd hresp hne⟩
    rw [due, ← hwire]
    exact hlater.sent hsend k p hlt hp'
  · have hnil := hall r wr e hready k p hp hp' hresp hwr
    have hwire := (hlater.hears.sessions hE).wire hsend k p hp' (hp.later hlater hlt hp').2
    rw [World.wire, hnil, List.flatMap_nil, List.append_nil] at hwire
    have hout : w'.out k = due (heard' p.obj) := hwire
    refine ⟨?_, fun _ => ⟨hout, hnil⟩⟩
    rw [hout]
    exact due_prefix (hlater.grows p.obj)

/-- **No answer outlasts a round.** Whatever else happens in a round of `do_select` that returns: a client
that could be written to and is still registered has been sent the answers to all that was received from it
before the round, which are those to its large frames if it sent such; if any was queued when the round
began, then also those to what it was read in the round. -/
theorem round_answers (hE : E.toLibC.Succeeds) (hsend : E.SendsWhole) (h : Server.Hears E m heard w)
    (hrun : doSelect E m w = .ok ⟨⟩ w') :
    ∃ heard', Server.Hears E m heard' w' ∧ (∀ i, heard i <+: heard' i) ∧
      ∀ r wr e, E.select w.nselect = .ready r wr e →
        ∀ k p, w.IsClient m k p → w'.look m k = some p → wr k = true →
          due (heard p.obj) <+: w'.out k ∧
            (∀ fs : List Frame, (∀ f ∈ fs, f.Large) → wires fs <+: heard p.obj →
              wires (fs.map fun f => f.request.answer) <+: w'.out k) ∧
            ((w.objs p.obj).virus.resp ≠ [] → w'.out k = due (heard' p.obj) ∧ (w'.objs p.obj).virus.resp = []) := by
  obtain ⟨heard', hlater, hall⟩ := doSelect_settles h hE hsend hrun
  refine ⟨heard', hlater.hears, hlater.grows, fun r wr e hready k p hp hp' hwr => ?_⟩
  obtain ⟨hbefore, hafter⟩ := hall r wr e hready k p hp hp' hwr
  exact ⟨hbefore, fun fs hlarge hbytes => (answers_of_wires hlarge hbytes).trans hbefore, hafter⟩

/-- A system with one client, that sends a request in every round. -/
def Env.busy : Env :=
  { Env.steady with
    accept := fun i => if i = 0 then .conn 5 ("10.0.0.1", 4000) else .fail
    recv := fun _ => .data smallRequest }

/-- The process after the client was taken in and its first request was read. -/
def World.busy : World :=
  final (doSelect .busy 0 (final (doSelect .busy 0 (World.opened .busy 0))))

/-- The third round: the answer to the first request is sent, and that to the second, which is read in it. -/
theorem round_answers_busy : ∃ heard heard' : ℕ → List UInt8, Server.Hears .busy 0 heard .busy ∧
    due (heard 1) <+: (final (doSelect .busy 0 .busy)).out 5 ∧
      (final (doSelect .busy 0 .busy)).out 5 = due (heard' 1) := by
  have hreach : Server.Reach .busy 0 .busy :=
    (opened_reach.round (by decide +kernel)).round (by decide +kernel)
  obtain ⟨heard, h⟩ := (hreach.moments (C := fun _ _ _ => True) fun _ _ _ => trivial).hears
  have hrun : doSelect .busy 0 .busy = .ok ⟨⟩ (final (doSelect .busy 0 .busy)) := eq_ok_final (by decide +kernel)
  obtain ⟨heard', -, -, hall⟩ := round_answers LibC.steady_succeeds (fun _ => .inl rfl) h hrun
  obtain ⟨hbefore, -, hafter⟩ := hall _ _ _ rfl 5 ⟨1, 1⟩ ⟨by decide +kernel, by decide +kernel⟩
    (by decide +kernel) rfl
  exact ⟨heard, heard', h, hbefore, (hafter (by decide +kernel)).1⟩

/-! ### The client -/

section Client

variable {host : Endian} {file down : List UInt8} {c : FakeClient} {r wr e : ℤ → Bool}

/-- **A client that reads its answer** whole, in its two calls. -/
theorem FakeClient.Stands.reads (h : c.Stands host down) (hn : c.next = some .recvHeader)
    (hpre : FakeClient.answer.wire <+: down) :
    ((c.step host down 8).step host (down.drop 8) 4).printed = some ⟨⟨123456, 4⟩, 0⟩ := by
  have hgot : c.got = [] := h.none (.inr (.inr hn))
  have hlen : 12 ≤ down.length := hpre.length_le
  -- the header
  set c₁ := c.step host down 8 with hc₁
  have hstep₁ : c₁ = { c.takeHeader host (down.take 8) with next := some .recvErrcode } := by
    rw [hc₁, FakeClient.step, hn]
    rfl
  have hgot₁ : c₁.got = down.take 8 := by rw [hstep₁, FakeClient.takeHeader, hgot, List.nil_append]
  have hlen₁ : c₁.got.length = 8 := by
    rw [hgot₁, List.length_take]
    omega
  have hnext₁ : c₁.next = some .recvErrcode := by rw [hstep₁]
  have hstands₁ : c₁.Stands host down := by
    have hallows : c.Allows (down.drop c.got.length) 8 := by
      rw [hgot]
      refine ⟨by decide, ?_⟩
      simp only [FakeClient.atMost, hn, sizeofHeader, List.length_nil, List.drop_zero]
      omega
    have hs := h.step hallows
    rwa [hgot] at hs
  -- the error code
  set c₂ := c₁.step host (down.drop 8) 4 with hc₂
  have hstep₂ : c₂ = (c₁.takeErrcode host ((down.drop 8).take 4)).print host := by
    rw [hc₂, FakeClient.step, hnext₁]
    rfl
  have hstands₂ : c₂.Stands host down := by
    have hallows : c₁.Allows (down.drop c₁.got.length) 4 := by
      rw [hlen₁]
      refine ⟨by decide, ?_⟩
      simp only [FakeClient.atMost, hnext₁, List.length_drop]
      omega
    have hs := hstands₁.step hallows
    rwa [hlen₁] at hs
  obtain ⟨r, hr⟩ : ∃ r, c₂.printed = some r := ⟨_, by rw [hstep₂]; rfl⟩
  obtain ⟨h12, hprinted⟩ := hstands₂.printed r hr
  have hwire : c₂.got = FakeClient.answer.wire :=
    (List.prefix_of_prefix_length_le hstands₂.got hpre h12.le).eq_of_length h12
  rw [hr, hprinted, hwire]
  decide

/-- **A client that has sent its file gets its answer** in the next round in which it can be written to, if
its connection lasts: where its two calls of `recv` give what they ask for, it prints `OK` for its id. -/
theorem client_served (hE : E.toLibC.Succeeds) (hsend : E.SendsWhole)
    (h : Conversation E m k p host file heard w down c) (hnext : c.next = some .recvHeader)
    (hv : (FakeClient.frame file).value ≠ []) (hwhole : heard p.obj = (FakeClient.frame file).wire)
    (hp : w.look m k = some p) (hready : E.select w.nselect = .ready r wr e) (hwr : wr k = true)
    (hrun : doSelect E m w = .ok ⟨⟩ w') (hp' : w'.look m k = some p) :
    ((c.step host (w'.out k) 8).step host ((w'.out k).drop 8) 4).printed = some ⟨⟨123456, 4⟩, 0⟩ := by
  have htalk := h.talk hE hsend
  obtain ⟨hc, hdown⟩ := htalk.client hp
  obtain ⟨heard', hlater, hall⟩ := doSelect_settles htalk.hears hE hsend hrun
  obtain ⟨hdue, -⟩ := hall r wr e hready k p ⟨hp, hc⟩ hp' hwr
  rw [hwhole, due_frame hv] at hdue
  have hstands : c.Stands host (w'.out k) := by
    apply htalk.stands.mono
    rw [hdown]
    exact hlater.sent hsend k p htalk.made hp'
  exact hstands.reads hnext hdue

/-- A system with one client, that can be written to but sends no more. -/
def Env.silent : Env :=
  { Env.oneClient smallFile with select := fun _ => .ready (fun _ => false) (fun _ => true) (fun _ => false) }

/-- The process after the client was taken in. -/
def World.taken : World :=
  final (BaseSocket.handleEvent .silent 0 .read ((World.opened .silent 0).logged (.event 0 3 .read)))

/-- The process after the file was read from it. -/
def World.waited : World :=
  final (BaseSocket.handleEvent .silent 1 .read (World.taken.logged (.event 1 5 .read)))

/-- Both sides when the file was read. -/
theorem waited_conversation : ∃ heard, Conversation .silent 0 5 ⟨1, 1⟩ .little [9] heard .waited []
    .waiting ∧ heard 1 = smallFile := by
  have hopened : Server.Hears .silent 0 (fun _ => []) (World.opened .silent 0) := by
    obtain ⟨sock, w', hnew, -⟩ := tcpServer_new .silent World.init none 7890 0
    unfold World.opened
    rw [hnew]
    exact .step .init (.server none 7890 hnew)
  have haccept : BaseSocket.handleEvent .silent 0 .read ((World.opened .silent 0).logged (.event 0 3 .read)) =
      .ok ⟨⟩ .taken := eq_ok_final (by decide +kernel)
  have hread : BaseSocket.handleEvent .silent 1 .read (World.taken.logged (.event 1 5 .read)) = .ok ⟨⟩ .waited :=
    eq_ok_final (by decide +kernel)
  have hgets : World.taken.gets .silent 1 .read = smallFile := by decide +kernel
  have hsent : FakeClient.waiting.sent = smallFile := by decide +kernel
  have htaken := hopened.step (.event (k := 3) (p := ⟨0, 0⟩) (by decide +kernel) haccept)
  have hstart : Conversation .silent 0 5 ⟨1, 1⟩ .little [9] _ .taken [] (.begun .little [9] ⟨⟨0, 0⟩, 0⟩) :=
    .accepted _ htaken ⟨by decide +kernel, by decide +kernel⟩ (Function.update_of_ne one_ne_zero _ _)
      (by decide +kernel)
  have hclient : Conversation .silent 0 5 ⟨1, 1⟩ .little [9] _ .taken [] .waiting :=
    (hstart.client 8 (by decide)).client 1 (by decide)
  have hnil : Function.update (fun _ => []) 0 ([] ++ (World.opened .silent 0).gets .silent 0 .read) 1 = [] :=
    Function.update_of_ne one_ne_zero _ _
  have hafter := hclient.server (.event (k := 5) (p := ⟨1, 1⟩) (by decide +kernel) hread) (by
    rw [Function.update_self, hnil, hgets, hsent, List.nil_append])
  rw [if_pos (by decide +kernel), show World.waited.out 5 = [] by decide +kernel] at hafter
  refine ⟨_, hafter, ?_⟩
  rw [Function.update_self, hnil, hgets, List.nil_append]

/-- A client with a file of one byte: after the next round it reads its answer. -/
theorem client_served_one :
    ((FakeClient.waiting.step .little ((final (doSelect .silent 0 .waited)).out 5) 8).step .little
      (((final (doSelect .silent 0 .waited)).out 5).drop 8) 4).printed = some ⟨⟨123456, 4⟩, 0⟩ := by
  obtain ⟨heard, h, hheard⟩ := waited_conversation
  have hrun : doSelect .silent 0 .waited = .ok ⟨⟩ (final (doSelect .silent 0 .waited)) :=
    eq_ok_final (by decide +kernel)
  have hwhole : heard 1 = (FakeClient.frame [9]).wire := by
    rw [hheard]
    decide +kernel
  exact client_served LibC.steady_succeeds (fun _ => .inl rfl) h (by decide +kernel) (by decide +kernel) hwhole
    (by decide +kernel) rfl rfl hrun (by decide +kernel)

end Client

end DocFerry
