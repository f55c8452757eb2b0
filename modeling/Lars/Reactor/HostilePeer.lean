import Lars.Reactor.TcpClientRead
import Lars.Reactor.TcpConnRead

/-!
# Arbitrary bytes

What the parse loops of `handle_read` do with bytes that are not frames. A loop always ends within
a pass for each header's length buffered, but a length field below the header's own size passes the
checks and gives a negative `body_len`. The loops are safe as long as they meet no such field:
`tcp_conn` takes the length from the first header buffered only, `tcp_client` from every header it
gets to behind well-formed frames.

* `parse_safe_of_harmless`: in every run of calls that meet no short length field, all parse loops
  are safe, and only then, as long as the loops start and the process does not end in what they
  call.
-/

namespace Lars.Reactor

open Machine Memory Framing

/-- `body_len` in a pass, if the pass gets there. -/
def Found.bodyLen : Found → Option ℤ
  | .wait => none
  | .bad => none
  | .negative bodyLen => some bodyLen
  | .message len _ => some (len - messageHeaderSize)

/-- The bytes start with a header whose length field is less than a header's length. -/
def ShortHeader (c : List UInt8) : Prop :=
  messageHeaderSize ≤ c.length ∧
    0 ≤ (Message.ofBytes (c.take messageHeaderSize)).len.toInt ∧
    (Message.ofBytes (c.take messageHeaderSize)).len.toInt < messageHeaderSize

instance : DecidablePred ShortHeader := fun _ => inferInstanceAs (Decidable (_ ∧ _ ∧ _))

/-- The bytes are well-formed frames followed by such a header. -/
def ShortBehindFrames (c : List UInt8) : Prop :=
  ∃ (ms : List Dispatch) (d : List UInt8),
    (∀ m ∈ ms, m.Fits) ∧ c = stream frame ms ++ d ∧ ShortHeader d

theorem shortHeader_iff (c : List UInt8) : ShortHeader c ↔ ∃ n, find c = .negative n := by
  unfold ShortHeader find
  constructor
  · rintro ⟨hlen, hnonneg, hlt⟩
    refine ⟨(Message.ofBytes (c.take messageHeaderSize)).len.toInt - messageHeaderSize, ?_⟩
    have hmax : ((messageHeaderSize : ℕ) : ℤ) ≤ messageMaxSize := by decide
    dsimp only
    rw [if_neg (by omega), if_neg (by omega), if_neg (by omega), if_pos (by omega)]
  · rintro ⟨n, h⟩
    split_ifs at h with hlen
    dsimp only at h
    split_ifs at h with hbad hwait hneg
    omega

theorem not_shortHeader_nil : ¬ ShortHeader [] := fun h => absurd h.1 (by decide)

/-- Behind the frames of messages there is no short header: what `send` lays out is harmless. -/
theorem not_shortBehindFrames_stream {ms : List Dispatch} (hms : ∀ m ∈ ms, m.Fits) :
    ¬ ShortBehindFrames (stream frame ms) := by
  induction ms with
  | nil =>
    rintro ⟨ms', d, -, hd, hshort⟩
    obtain ⟨-, rfl⟩ := List.append_eq_nil_iff.mp hd.symm
    exact not_shortHeader_nil hshort
  | cons m ms ih =>
    have hm := hms m List.mem_cons_self
    rintro ⟨ms', d, hfits, hd, hshort⟩
    have hfind := find_frame hm (stream frame ms)
    rw [← stream_cons, hd] at hfind
    cases ms' with
    | nil =>
      obtain ⟨n, hn⟩ := (shortHeader_iff d).mp hshort
      cases hn.symm.trans hfind
    | cons m' ms' =>
      rw [stream_cons, List.append_assoc, find_frame (hfits m' List.mem_cons_self)] at hfind
      obtain ⟨-, rfl⟩ := Found.message.inj hfind
      rw [stream_cons, stream_cons, List.append_assoc] at hd
      exact ih (fun x hx => hms x (List.mem_cons_of_mem _ hx)) ⟨ms', d,
        fun x hx => hfits x (List.mem_cons_of_mem _ hx), List.append_cancel_left hd, hshort⟩

/-- Whether a run of memory starts with such a header does not depend on what is behind it. -/
theorem ShortHeader.mono {m : ℕ → UInt8} {off n n' : ℕ} (hle : n ≤ n')
    (h : ShortHeader (load m off n)) : ShortHeader (load m off n') := by
  unfold ShortHeader at h ⊢
  rw [length_load] at h ⊢
  rw [take_load m off h.1] at h
  rw [take_load m off (h.1.trans hle)]
  exact ⟨h.1.trans hle, h.2⟩

namespace Endpoint

variable {κ ω : Type} (K : Kind κ ω) (close : Endpoint κ ω → Except Halt (Endpoint κ ω))
  (h : Handlers) (data : IoBuf → ℕ)

/-- A pass of a parse loop is as it should be: it leaves the loop, or consumes a header's length at
least with a body within the buffered bytes; or the process ends in what it calls. -/
def PassSafe (s : Parsing κ ω) : Prop :=
  (∃ r, parseBody K close h data s = .ok (.leave r)) ∨
  ExitsOrOverreads (parseBody K close h data s) ∨
  ∃ s' b n, parseBody K close h data s = .ok (.next s') ∧ s.conn.ibuf = some b ∧
    ReactorBuf.length s'.conn.ibuf + messageHeaderSize ≤ b.length ∧
    (examine b.data (data b) b.length).bodyLen = some n ∧ 0 ≤ n ∧ messageHeaderSize + n ≤ b.length

/-- A parse loop is as it should be: it ends within a pass for each header's length buffered and one
more, and every pass is. -/
def LoopSafe (s : Parsing κ ω) : Prop :=
  (iterate (parseBody K close h data)
    (ReactorBuf.length s.conn.ibuf / messageHeaderSize + 1) s).isSome ∧
  ∀ s', Reaches (parseBody K close h data) s s' → PassSafe K close h data s'

variable {K close h data}

/-- A pass is safe unless it finds a short length field. -/
theorem passSafe_iff (hclose : Closes close) {s : Parsing κ ω} :
    PassSafe K close h data s ↔
      ∀ b, s.conn.ibuf = some b → ¬ ShortHeader (load b.data (data b) b.length) := by
  cases hb : s.conn.ibuf with
  | none =>
    refine iff_of_true (Or.inl ⟨s, ?_⟩) fun _ h => nomatch h
    simp only [parseBody, hb]
  | some b =>
    have hfind := examine_eq_find b.data (data b) b.length
    rw [show (∀ b', some b = some b' → ¬ ShortHeader (load b'.data (data b') b'.length)) ↔
      ¬ ShortHeader (load b.data (data b) b.length) by simp, shortHeader_iff, ← hfind]
    cases hx : examine b.data (data b) b.length with
    | wait =>
      refine iff_of_true (Or.inl ⟨s, ?_⟩) fun ⟨_, h⟩ => nomatch h
      simp only [parseBody, hb, hx]
    | bad =>
      refine iff_of_true ?_ fun ⟨_, h⟩ => nomatch h
      rcases hclose.ends s.conn with hc | ⟨conn, hc⟩
      · refine Or.inr (Or.inl ?_)
        simp only [parseBody, hb, hx]
        exact hc.bind _
      · exact Or.inl ⟨{ s with conn := conn }, by simp only [parseBody, hb, hx, hc]; rfl⟩
    | negative n =>
      refine iff_of_false ?_ fun h => h ⟨n, rfl⟩
      unfold PassSafe
      simp [parseBody, hb, hx, not_exitsOrOverreads_undefined]
    | message len m =>
      refine iff_of_true ?_ fun ⟨_, h⟩ => nomatch h
      obtain ⟨hle, hlen, -⟩ := find_message (hfind ▸ hx)
      rw [length_load] at hlen
      rcases parseBody_message (K := K) close data hb hx hlen with he | ⟨s', he, -⟩
      · exact Or.inr (Or.inl he)
      · have hlt := length_parseBody_next he
        rw [hb] at hlt
        exact Or.inr (Or.inr ⟨s', b, len - messageHeaderSize, he, hb, hlt, by rw [hx]; rfl,
          by omega, by omega⟩)

theorem iterate_parseBody (s : Parsing κ ω) :
    (iterate (parseBody K close h data)
      (ReactorBuf.length s.conn.ibuf / messageHeaderSize + 1) s).isSome := by
  refine iterate_isSome (μ := fun s => ReactorBuf.length s.conn.ibuf / messageHeaderSize) ?_
    (Nat.lt_succ_self _)
  intro s s' hp
  have hle := length_parseBody_next hp
  simp only [messageHeaderSize] at hle ⊢
  omega

/-- **A loop that reads every header where the first one was** is safe exactly if the first one is
not short. -/
theorem loopSafe_fixed_iff (hclose : Closes close) {off : ℕ} {s : Parsing κ ω} {b : IoBuf}
    (hb : s.conn.ibuf = some b) :
    LoopSafe K close h (fun _ => off) s ↔ ¬ ShortHeader (load b.data off b.length) := by
  constructor
  · exact fun hsafe => (passSafe_iff hclose).mp (hsafe.2 s (.refl s)) b hb
  · refine fun hshort => ⟨iterate_parseBody s, fun s' hs' => (passSafe_iff hclose).mpr ?_⟩
    have hinv : ∀ b', s'.conn.ibuf = some b' → b'.data = b.data ∧ b'.length ≤ b.length := by
      refine hs'.invariant
        (I := fun s' => ∀ b', s'.conn.ibuf = some b' → b'.data = b.data ∧ b'.length ≤ b.length)
        ?_ fun b' hb' => Option.some.inj (hb.symm.trans hb') ▸ ⟨rfl, Nat.le_refl _⟩
      intro s₁ s₂ hs₁ hp b₂ hb₂
      obtain ⟨b₁, len, m, hb₁, -, -, -, -, hr⟩ := parseBody_next hp
      obtain rfl : b₂ = b₁.pop len := by
        rcases hr with hr | hr <;> rw [hr] at hb₂ <;> cases hb₂
        rfl
      obtain ⟨hdata, hle⟩ := hs₁ b₁ hb₁
      exact ⟨hdata, (Nat.sub_le _ _).trans hle⟩
    intro b' hb' hshort'
    obtain ⟨hdata, hle⟩ := hinv b' hb'
    rw [hdata] at hshort'
    exact hshort (hshort'.mono hle)

theorem shortBehindFrames_of_message {c : List UInt8} {len : ℕ} {m : Dispatch}
    (hfind : find c = .message len m) (hshort : ShortBehindFrames (c.drop len)) :
    ShortBehindFrames c := by
  obtain ⟨hfit, -, hc⟩ := frame_of_find hfind
  obtain ⟨ms, d, hfits, hd, hshort⟩ := hshort
  refine ⟨m :: ms, d, ?_, ?_, hshort⟩
  · intro m' hm'
    rcases List.mem_cons.mp hm' with rfl | hm'
    · exact hfit
    · exact hfits m' hm'
  · rw [hc, hd, stream_cons, List.append_assoc]

/-- **A loop that moves on with the buffer** is safe if no header behind well-formed frames is
short. -/
theorem loopSafe_moving (hclose : Closes close) {s : Parsing κ ω}
    (hshort : ¬ ShortBehindFrames (ReactorBuf.contents s.conn.ibuf)) :
    LoopSafe K close h (fun b => ReactorBuf.data (some b)) s := by
  refine ⟨iterate_parseBody s, fun s' hs' => (passSafe_iff hclose).mpr ?_⟩
  have hinv : ¬ ShortBehindFrames (ReactorBuf.contents s'.conn.ibuf) := by
    refine hs'.invariant (I := fun s' => ¬ ShortBehindFrames (ReactorBuf.contents s'.conn.ibuf))
      ?_ hshort
    intro s₁ s₂ hs₁ hp hshort₂
    obtain ⟨b, len, m, hb, hx, -, -, hc, -⟩ := parseBody_next hp
    rw [ReactorBuf.examine_data] at hx
    rw [hc] at hshort₂
    rw [hb] at hs₁
    exact hs₁ (shortBehindFrames_of_message hx hshort₂)
  intro b hb hshort'
  rw [hb] at hinv
  exact hinv ⟨[], b.contents, (fun _ h => nomatch h), rfl, hshort'⟩

/-- It is safe only then, unless the process ends in what it calls. -/
theorem not_short_of_loopSafe (hclose : Closes close) {ms : List Dispatch} {d : List UInt8}
    (hd : ShortHeader d) : ∀ {s : Parsing κ ω}, (∀ m ∈ ms, m.Fits) →
      ReactorBuf.contents s.conn.ibuf = stream frame ms ++ d →
      LoopSafe K close h (fun b => ReactorBuf.data (some b)) s →
      ExitsOrOverreads (Machine.loop (parseBody K close h fun b => ReactorBuf.data (some b))
        (parseBody_decreases close h _) s) := by
  induction ms with
  | nil =>
    intro s _ hc hsafe
    have hpass := (passSafe_iff hclose).mp (hsafe.2 s (.refl s))
    cases hb : s.conn.ibuf with
    | none =>
      rw [hb] at hc
      obtain rfl : d = [] := hc.symm
      exact absurd hd.1 (by decide)
    | some b =>
      rw [hb] at hc
      have hcb : load b.data (ReactorBuf.data (some b)) b.length = d := hc
      exact absurd hd (hcb ▸ hpass b hb)
  | cons m ms ih =>
    intro s hfits hc hsafe
    rw [stream_cons, List.append_assoc] at hc
    cases hb : s.conn.ibuf with
    | none =>
      rw [hb] at hc
      exact absurd (List.append_eq_nil_iff.mp hc.symm).1 (frame_ne_nil m)
    | some b =>
      rw [hb] at hc
      have hcb : b.contents = frame m ++ (stream frame ms ++ d) := hc
      have hx : examine b.data (ReactorBuf.data (some b)) b.length =
          .message (frame m).length m := by
        rw [ReactorBuf.examine_data, hcb]
        exact find_frame (hfits m List.mem_cons_self) _
      have hlen : (frame m).length ≤ b.length := by
        rw [← IoBuf.length_contents, hcb, List.length_append]
        exact Nat.le_add_right _ _
      rcases parseBody_message (K := K) close (fun b => ReactorBuf.data (some b)) hb hx hlen with
        he | ⟨s', he, -, hc', -⟩
      · exact he.imp (loop_error _) (loop_error _)
      · rw [loop_next _ he]
        refine ih (fun m' hm' => hfits m' (List.mem_cons_of_mem _ hm')) ?_
          ⟨iterate_parseBody s', fun s'' hs'' => hsafe.2 s'' (.next he hs'')⟩
        rw [hc', hcb, List.drop_left]

end Endpoint

/-! ## The server's end -/

namespace TcpConn

theorem closes_handleClose (ctl : Bool) : Endpoint.Closes (handleClose ctl) where
  ibuf c c' h := by
    obtain rfl : close ctl c = c' := Except.ok.inj h
    unfold close
    split_ifs
    · exact Or.inr rfl
    · exact Or.inl rfl
  ends c := Or.inr ⟨_, rfl⟩

/-- A call's parse loop, if it has one, is as it should be. -/
def CallSafe (c : TcpConn) (ev : Event) : Prop :=
  match ev.call with
  | .handleRead k h => ∀ n ibuf pool,
    ReactorBuf.readData c.ibuf k ev.pool = .ok (n, ibuf, pool) → 0 < n →
    Endpoint.LoopSafe kind (handleClose ev.ctl) h (fun _ => ReactorBuf.data ibuf)
      ⟨{ c with ibuf := ibuf, pool := pool }, []⟩
  | _ => True

/-- A call that finds no short length field in the first header of the bytes buffered. -/
def Harmless (c : TcpConn) (ev : Event) : Prop :=
  match ev.call with
  | .handleRead k _ => ReactorBuf.bytesRead k ≠ [] →
    ¬ ShortHeader (ReactorBuf.contents c.ibuf ++ ReactorBuf.bytesRead k)
  | _ => True

/-- A call that gets the bytes read into the buffer. -/
def Parses (c : TcpConn) (ev : Event) : Prop :=
  match ev.call with
  | .handleRead k _ => ReactorBuf.bytesRead k ≠ [] → ∃ n ibuf pool,
    ReactorBuf.readData c.ibuf k ev.pool = .ok (n, ibuf, pool) ∧ 0 < n
  | _ => True

theorem front_step {c c' : TcpConn} {ev : Event} {o : Shown} (hc : ReactorBuf.Front c.ibuf)
    (h : step c ev = .ok (o, c')) : ReactorBuf.Front c'.ibuf := by
  obtain ⟨k, hs, r, -, h⟩ | ⟨answers, l, -, h⟩ | ⟨id, body, ret, -, h⟩ := step_cases h
  · exact Endpoint.handleRead_front (closes_handleClose ev.ctl) (e := { c with pool := ev.pool })
      hc h
  · exact Endpoint.handleWrite_front (closes_handleClose ev.ctl) (e := { c with pool := ev.pool })
      hc h
  · exact (Endpoint.send_untouched h).ibuf_eq ▸ hc

theorem loopSafe_iff {ctl : Bool} {k : KernelRead} {hs : Handlers} {c : TcpConn}
    (hc : ReactorBuf.Front c.ibuf) {p pool : BufPool} {n : ℤ} {ibuf : Option IoBuf}
    (hread : ReactorBuf.readData c.ibuf k p = .ok (n, ibuf, pool)) (hn : 0 < n) :
    Endpoint.LoopSafe kind (handleClose ctl) hs (fun _ => ReactorBuf.data ibuf)
        ⟨{ c with ibuf := ibuf, pool := pool }, []⟩ ↔
      ¬ ShortHeader (ReactorBuf.contents c.ibuf ++ ReactorBuf.bytesRead k) := by
  obtain ⟨hne, hcont⟩ := ReactorBuf.readData_pos hc hread hn
  cases ibuf with
  | none => exact absurd (List.append_eq_nil_iff.mp hcont.symm).2 hne
  | some b =>
    rw [Endpoint.loopSafe_fixed_iff (closes_handleClose ctl) (b := b) rfl, ← hcont]
    rfl

theorem callSafe_of_harmless {c : TcpConn} {ev : Event} (hc : ReactorBuf.Front c.ibuf)
    (h : Harmless c ev) : CallSafe c ev := by
  unfold Harmless at h
  unfold CallSafe
  cases hcall : ev.call with
  | handleRead k hs =>
    simp only [hcall] at h ⊢
    intro n ibuf pool hread hn
    exact (loopSafe_iff hc hread hn).mpr (h (ReactorBuf.readData_pos hc hread hn).1)
  | handleWrite answers => trivial
  | send id body => trivial

theorem harmless_of_callSafe {c : TcpConn} {ev : Event} (hc : ReactorBuf.Front c.ibuf)
    (hp : Parses c ev) (h : CallSafe c ev) : Harmless c ev := by
  unfold Parses at hp
  unfold CallSafe at h
  unfold Harmless
  cases hcall : ev.call with
  | handleRead k hs =>
    simp only [hcall] at hp h ⊢
    intro hne
    obtain ⟨n, ibuf, pool, hread, hn⟩ := hp hne
    exact (loopSafe_iff hc hread hn).mp (h n ibuf pool hread hn)
  | handleWrite answers => trivial
  | send id body => trivial

end TcpConn

/-! ## The client -/

namespace TcpClient

theorem established_untouched {env : ClientEnv} {c c' : TcpClient}
    (h : established env c = .ok c') :
    c'.ibuf = c.ibuf := (Endpoint.runScript_untouched h).ibuf_eq

theorem doConnect_ibuf {env : ClientEnv} {c c' : TcpClient} (h : doConnect env c = .ok c') :
    c'.ibuf = c.ibuf := by
  unfold doConnect at h
  split_ifs at h
  · exact established_untouched h
  · cases h
    rfl
  · cases h
    rfl

theorem closes_cleanConn (env : ClientEnv) : Endpoint.Closes (cleanConn env) where
  ibuf c c' h := by
    obtain ⟨c₁, hrun, h⟩ := bind_eq_ok.mp h
    exact Or.inl ((doConnect_ibuf h).trans (Endpoint.runScript_untouched hrun).ibuf_eq)
  ends c := by
    unfold cleanConn
    dsimp only
    rcases Endpoint.runScript_error kind env.onClose _ with he | ⟨c₁, he⟩
    · exact Or.inl (he.bind _)
    · rw [he, ok_bind]
      unfold doConnect established
      split_ifs
      · exact Endpoint.runScript_error kind env.onBuild _
      · exact Or.inr ⟨_, rfl⟩
      · exact Or.inl (Or.inl rfl)
      · exact Or.inr ⟨_, rfl⟩

/-- A call's parse loop, if it has one, is as it should be. -/
def CallSafe (c : TcpClient) (ev : Event) : Prop :=
  match ev.call with
  | .handleRead probe k h => c.own.connected = true → probe = true → ∀ n ibuf pool,
    ReactorBuf.readData c.ibuf k ev.pool = .ok (n, ibuf, pool) → 0 < n →
    Endpoint.LoopSafe kind (cleanConn ev.env) h (fun b => ReactorBuf.data (some b))
      ⟨{ c with ibuf := ibuf, pool := pool }, []⟩
  | _ => True

/-- A call that finds no short length field behind the frames buffered. -/
def Harmless (c : TcpClient) (ev : Event) : Prop :=
  match ev.call with
  | .handleRead _ k _ => ReactorBuf.bytesRead k ≠ [] →
    ¬ ShortBehindFrames (ReactorBuf.contents c.ibuf ++ ReactorBuf.bytesRead k)
  | _ => True

/-- A call that gets the bytes read into the buffer, and does not end the process in what it calls. -/
def Parses (c : TcpClient) (ev : Event) : Prop :=
  match ev.call with
  | .handleRead probe k _ => ReactorBuf.bytesRead k ≠ [] →
    ¬ ExitsOrOverreads (step c ev) ∧ c.own.connected = true ∧ probe = true ∧ ∃ n ibuf pool,
      ReactorBuf.readData c.ibuf k ev.pool = .ok (n, ibuf, pool) ∧ 0 < n
  | _ => True

theorem front_step {c c' : TcpClient} {ev : Event} {o : Shown} (hc : ReactorBuf.Front c.ibuf)
    (h : step c ev = .ok (o, c')) : ReactorBuf.Front c'.ibuf := by
  obtain ⟨soError, -, h⟩ | ⟨probe, k, hs, -, rfl | ⟨r, h⟩⟩ | ⟨answers, l, -, h⟩ |
    ⟨id, body, ret, -, h⟩ := step_cases h
  · exact established_untouched h ▸ hc
  · exact hc
  · exact Endpoint.handleRead_front (closes_cleanConn ev.env) (e := { c with pool := ev.pool }) hc h
  · exact Endpoint.handleWrite_front (closes_cleanConn ev.env) (e := { c with pool := ev.pool }) hc
      h
  · exact (Endpoint.send_untouched h).ibuf_eq ▸ hc

theorem callSafe_of_harmless {c : TcpClient} {ev : Event} (hc : ReactorBuf.Front c.ibuf)
    (h : Harmless c ev) : CallSafe c ev := by
  unfold Harmless at h
  unfold CallSafe
  cases hcall : ev.call with
  | handleConnect soError => trivial
  | handleRead probe k hs =>
    simp only [hcall] at h ⊢
    intro _ _ n ibuf pool hread hn
    obtain ⟨hne, hcont⟩ := ReactorBuf.readData_pos hc hread hn
    refine Endpoint.loopSafe_moving (closes_cleanConn ev.env) ?_
    rw [hcont]
    exact h hne
  | handleWrite answers => trivial
  | send id body => trivial

theorem harmless_of_callSafe {c : TcpClient} {ev : Event} (hc : ReactorBuf.Front c.ibuf)
    (hp : Parses c ev) (h : CallSafe c ev) : Harmless c ev := by
  unfold Parses at hp
  unfold CallSafe at h
  unfold Harmless
  cases hcall : ev.call with
  | handleConnect soError => trivial
  | handleRead probe k hs =>
    simp only [hcall] at hp h ⊢
    rintro hne ⟨ms, d, hfits, hd, hshort⟩
    obtain ⟨hexit, hconn, rfl, n, ibuf, pool, hread, hn⟩ := hp hne
    obtain ⟨-, hcont⟩ := ReactorBuf.readData_pos hc hread hn
    have hloop := Endpoint.not_short_of_loopSafe (closes_cleanConn ev.env) hshort hfits
      (hcont.trans hd) (h hconn rfl n ibuf pool hread hn)
    refine hexit ?_
    have hneg : ¬ n < 0 := by omega
    have hzero : ¬ n = 0 := by omega
    simp only [step, hcall, handleRead, hconn, Bool.not_true, Bool.false_eq_true, if_false,
      Endpoint.handleRead, hread, ok_bind, hneg, hzero]
    exact (hloop.bind _).bind _
  | handleWrite answers => trivial
  | send id body => trivial

end TcpClient

/-! ## Runs -/

/-- **Safety of the parse loops.** In every run of calls on a connection none of which meets a short
length field in the first header buffered, and in every run of calls on a client none of which
meets one behind the frames buffered, all parse loops end and all their passes are safe. Such a
field makes the loop that meets it unsafe. -/
theorem parse_safe_of_harmless {c : TcpConn} (hc : c.ibuf = none) (es : List TcpConn.Event)
    {d : TcpClient} (hd : d.ibuf = none) (fs : List TcpClient.Event) :
    ((Along TcpConn.step TcpConn.Harmless c es → Along TcpConn.step TcpConn.CallSafe c es) ∧
      (Along TcpConn.step (fun c ev => TcpConn.Parses c ev ∧ TcpConn.CallSafe c ev) c es →
        Along TcpConn.step TcpConn.Harmless c es)) ∧
    (Along TcpClient.step TcpClient.Harmless d fs → Along TcpClient.step TcpClient.CallSafe d fs) ∧
      (Along TcpClient.step (fun d ev => TcpClient.Parses d ev ∧ TcpClient.CallSafe d ev) d fs →
        Along TcpClient.step TcpClient.Harmless d fs) := by
  refine ⟨⟨fun hes => ?_, fun hes => ?_⟩, fun hfs => ?_, fun hfs => ?_⟩
  · exact hes.imp (P := fun c => ReactorBuf.Front c.ibuf) (fun _ _ hf h =>
      ⟨TcpConn.callSafe_of_harmless hf h, fun _ _ => TcpConn.front_step hf⟩)
      (hc ▸ ReactorBuf.front_none)
  · exact hes.imp (P := fun c => ReactorBuf.Front c.ibuf) (fun _ _ hf h =>
      ⟨TcpConn.harmless_of_callSafe hf h.1 h.2, fun _ _ => TcpConn.front_step hf⟩)
      (hc ▸ ReactorBuf.front_none)
  · exact hfs.imp (P := fun d => ReactorBuf.Front d.ibuf) (fun _ _ hf h =>
      ⟨TcpClient.callSafe_of_harmless hf h, fun _ _ => TcpClient.front_step hf⟩)
      (hd ▸ ReactorBuf.front_none)
  · exact hfs.imp (P := fun d => ReactorBuf.Front d.ibuf) (fun _ _ hf h =>
      ⟨TcpClient.harmless_of_callSafe hf h.1 h.2, fun _ _ => TcpClient.front_step hf⟩)
      (hd ▸ ReactorBuf.front_none)

/-- A frame read by a fresh connection, and by a client once it is connected. -/
theorem parse_safe_frame :
    Along TcpConn.step TcpConn.CallSafe (.new 1 5 {} (fun _ => none) (.ofCounts fun _ => 2))
      [⟨.handleRead (.chunk 0 (frame ⟨1, [104, 105]⟩)) ⟨fun _ => true, fun _ => []⟩,
        .ofCounts fun _ => 2, true⟩] ∧
    Along TcpClient.step TcpClient.CallSafe (.new 1 5 {} (.ofCounts fun _ => 2))
      [⟨.handleConnect 0, .ofCounts fun _ => 2, ⟨true, .pending, [], []⟩⟩,
        ⟨.handleRead true (.chunk 0 (frame ⟨1, [104, 105]⟩)) ⟨fun _ => true, fun _ => []⟩,
          .ofCounts fun _ => 2, ⟨true, .pending, [], []⟩⟩] := by
  have h := parse_safe_of_harmless
    (rfl : (TcpConn.new 1 5 {} (fun _ => none) (.ofCounts fun _ => 2)).ibuf = none)
    [⟨.handleRead (.chunk 0 (frame ⟨1, [104, 105]⟩)) ⟨fun _ => true, fun _ => []⟩,
      .ofCounts fun _ => 2, true⟩]
    (rfl : (TcpClient.new 1 5 {} (.ofCounts fun _ => 2)).ibuf = none)
    [⟨.handleConnect 0, .ofCounts fun _ => 2, ⟨true, .pending, [], []⟩⟩,
      ⟨.handleRead true (.chunk 0 (frame ⟨1, [104, 105]⟩)) ⟨fun _ => true, fun _ => []⟩,
        .ofCounts fun _ => 2, ⟨true, .pending, [], []⟩⟩]
  have hclient : ¬ ShortBehindFrames (stream frame [⟨1, [104, 105]⟩]) :=
    not_shortBehindFrames_stream (by decide)
  exact ⟨h.1.1 (along_cons (fun _ => (by decide : ¬ ShortHeader (frame ⟨1, [104, 105]⟩)))
    (along_nil _ _)), h.2.1 (along_cons trivial (along_cons (fun _ => hclient) (along_nil _ _)))⟩

/-- A header that gives the message's length as zero: both loops go on to a negative `body_len`. -/
theorem parse_not_safe :
    (¬ ∀ (c : TcpConn) (es : List TcpConn.Event), c.ibuf = none →
      Along TcpConn.step TcpConn.CallSafe c es) ∧
    ¬ ∀ (c : TcpClient) (es : List TcpClient.Event), c.ibuf = none →
      Along TcpClient.step TcpClient.CallSafe c es := by
  refine ⟨fun hall => ?_, fun hall => ?_⟩
  · have hsafe := (hall (.new 1 5 {} (fun _ => none) (.ofCounts fun _ => 2))
      [⟨.handleRead (.chunk 0 (Message.bytes ⟨0, 0⟩)) ⟨fun _ => true, fun _ => []⟩,
        .ofCounts fun _ => 2, true⟩] rfl).1
    refine TcpConn.harmless_of_callSafe ReactorBuf.front_none ?_ hsafe (by decide)
      (by decide : ShortHeader (Message.bytes ⟨0, 0⟩))
    exact fun _ => ⟨_, _, _, rfl, by decide⟩
  · have hsafe := (hall { TcpClient.new 1 5 {} (.ofCounts fun _ => 2) with own := ⟨1, true⟩ }
      [⟨.handleRead true (.chunk 0 (Message.bytes ⟨0, 0⟩)) ⟨fun _ => true, fun _ => []⟩,
        .ofCounts fun _ => 2, ⟨true, .pending, [], []⟩⟩] rfl).1
    refine TcpClient.harmless_of_callSafe ReactorBuf.front_none ?_ hsafe (by decide)
      ⟨[], Message.bytes ⟨0, 0⟩, (fun _ h => nomatch h), by decide, by decide⟩
    exact fun _ => ⟨not_exitsOrOverreads_undefined, rfl, rfl, _, _, _, rfl, by decide⟩

end Lars.Reactor
