import Lars.Agent.Shards
import Lars.Api.GetHost
import Lars.Foundations.Int32
import Lars.Foundations.RoundRobin

/-!
# Choosing a host

A `load_balance` (`lars_agent/src/load_balance.cc`) has two lists of hosts, idle and busy, and
`choice_one_host` takes the front of one of them and puts it at the back. It counts the calls that
have not taken a busy host; at ten it takes one.

* With the counter from 0 to 10 and a busy host, every eleventh call takes a busy host. The others
  take an idle one, or report overload if there is none, and all hosts of a list are taken in turn
  (`run_fair`).
* The constructor does not set the counter, and calls with idle hosts only count without bound. What
  was in memory and the calls are harmless if and only if no stretch of such calls, with the calls
  since the last reset before it, is too long for an `int`, and at least as many calls are made as
  the value in memory is below 0 before eleven calls with a busy host begin (`sound_iff`).
-/

namespace Lars.Agent

open Reactor Machine Api RoundRobin

/-! ## Hosts -/

/-- `host_info`. -/
structure HostInfo where
  ip : UInt32
  port : Int32
  vsucc : UInt32 := 0
  verr : UInt32 := 0
  rsucc : UInt32 := 0
  rerr : UInt32 := 0
  continSucc : UInt32 := 0
  continErr : UInt32 := 0
  overload : Bool := false
  deriving DecidableEq

/-- The address of a host, copied into `h_info`. -/
def HostInfo.setHost (hInfo it : HostInfo) : HostInfo := { hInfo with ip := it.ip, port := it.port }

/-- `get_host_from_list`, on `h_info` and the list. -/
def getHostFromList (hInfo : HostInfo) : List HostInfo → HostInfo × List HostInfo
  | [] => (hInfo, [])
  | it :: l => (hInfo.setHost it, l ++ [it])

/-- `load_balance::STATUS`. -/
inductive Status
  | pulling
  | new
  deriving DecidableEq

/-- `load_balance`. `status` is `none` while it is not an enumerator; `m_host_map` is a list of its
entries. -/
structure LoadBalance where
  status : Option Status
  mModid : Int32
  mCmdid : Int32
  mAccessCnt : Int32
  mHostMap : List (UInt64 × HostInfo)
  mIdleList : List HostInfo
  mBusyList : List HostInfo
  deriving DecidableEq

/-- The memory of a `load_balance` before its construction, where the constructor leaves it. -/
structure Uninitialized where
  status : Option Status
  mAccessCnt : Int32
  deriving DecidableEq

/-- The constructor of `load_balance`. -/
def LoadBalance.new (u : Uninitialized) (modid cmdid : Int32) : LoadBalance where
  status := u.status
  mModid := modid
  mCmdid := cmdid
  mAccessCnt := u.mAccessCnt
  mHostMap := []
  mIdleList := []
  mBusyList := []

/-! ## The choice -/

/-- The lists of a `load_balance`. -/
inductive HostList
  | idle
  | busy
  deriving DecidableEq

/-- What `choice_one_host` shows: the code returned, the host left in `h_info`, and the list that
`get_host_from_list` has been called on. -/
structure Choice where
  ret : Int32
  hInfo : HostInfo
  taken : Option HostList := none
  deriving DecidableEq

/-- A host has been taken from the list. -/
def Choice.takes (l : HostList) (o : Choice) : Bool := o.taken = some l

namespace LoadBalance

/-- `choice_one_host` from `m_busy_list`. -/
def takeBusy (lb : LoadBalance) (hInfo : HostInfo) : Choice × LoadBalance :=
  let (h, l) := getHostFromList hInfo lb.mBusyList
  (⟨LarsRetCode.succ.toInt, h, some .busy⟩, { lb with mAccessCnt := 0, mBusyList := l })

/-- `load_balance::choice_one_host`. -/
def choiceOneHost (lb : LoadBalance) (hInfo : HostInfo) : Except Halt (Choice × LoadBalance) :=
  if lb.mIdleList.isEmpty then
    if 10 ≤ lb.mAccessCnt then .ok (lb.takeBusy hInfo)
    else do
      let cnt ← addInt lb.mAccessCnt 1
      .ok (⟨LarsRetCode.overload.toInt, hInfo, none⟩, { lb with mAccessCnt := cnt })
  else if !lb.mBusyList.isEmpty && 10 ≤ lb.mAccessCnt then .ok (lb.takeBusy hInfo)
  else do
    let cnt ← addInt lb.mAccessCnt 1
    let (h, l) := getHostFromList hInfo lb.mIdleList
    .ok (⟨LarsRetCode.succ.toInt, h, some .idle⟩, { lb with mAccessCnt := cnt, mIdleList := l })

/-- The list that a call takes a host from. -/
def taken (lb : LoadBalance) : Option HostList :=
  if 10 ≤ lb.mAccessCnt.toInt ∧ (lb.mIdleList = [] ∨ lb.mBusyList ≠ []) then some .busy
  else if lb.mIdleList = [] then none
  else some .idle

/-- The list of that name. -/
def hosts (lb : LoadBalance) : HostList → List HostInfo
  | .idle => lb.mIdleList
  | .busy => lb.mBusyList

/-- What a call shows that takes from the list. -/
def choice (lb : LoadBalance) (hInfo : HostInfo) : Option HostList → Choice
  | none => ⟨LarsRetCode.overload.toInt, hInfo, none⟩
  | some l => ⟨LarsRetCode.succ.toInt, (lb.hosts l).head?.elim hInfo hInfo.setHost, some l⟩

/-- The state after a call that takes from the list and leaves the counter at `cnt`. -/
def rotated (lb : LoadBalance) (cnt : Int32) (l : Option HostList) : LoadBalance :=
  { lb with
    mAccessCnt := cnt
    mIdleList := if l = some .idle then lb.mIdleList.rotate 1 else lb.mIdleList
    mBusyList := if l = some .busy then lb.mBusyList.rotate 1 else lb.mBusyList }

/-- The counter after a call that takes from the list. -/
def nextCnt (lb : LoadBalance) (l : Option HostList) : Except Halt Int32 :=
  if l = some .busy then .ok 0 else addInt lb.mAccessCnt 1

end LoadBalance

theorem getHostFromList_eq (hInfo : HostInfo) (l : List HostInfo) :
    getHostFromList hInfo l = (l.head?.elim hInfo hInfo.setHost, l.rotate 1) := by
  cases l with
  | nil => rfl
  | cons it l =>
    rw [List.rotate_cons_succ, List.rotate_zero]
    rfl

namespace LoadBalance

/-- **What a call does.** -/
theorem choiceOneHost_eq (lb : LoadBalance) (hInfo : HostInfo) :
    lb.choiceOneHost hInfo = (lb.nextCnt lb.taken >>= fun cnt =>
      .ok (lb.choice hInfo lb.taken, lb.rotated cnt lb.taken)) := by
  have hcnt : 10 ≤ lb.mAccessCnt ↔ 10 ≤ lb.mAccessCnt.toInt := Int32.le_iff_toInt_le
  have hbusy : lb.takeBusy hInfo = (lb.choice hInfo (some .busy), lb.rotated 0 (some .busy)) := by
    rw [takeBusy, getHostFromList_eq]
    rfl
  unfold choiceOneHost taken
  rcases hidle : lb.mIdleList with _ | ⟨it, l⟩
  · simp only [List.isEmpty_nil, if_true, hcnt, true_or, and_true]
    split_ifs with h10
    · rw [hbusy]
      rfl
    · simp [nextCnt, choice, rotated, hidle]
  · have hguard : (!lb.mBusyList.isEmpty && decide (10 ≤ lb.mAccessCnt)) = true ↔
        10 ≤ lb.mAccessCnt.toInt ∧ lb.mBusyList ≠ [] := by
      simp [hcnt, and_comm]
    simp only [List.isEmpty_cons, Bool.false_eq_true, if_false, hguard, reduceCtorEq, false_or]
    split_ifs with h10
    · rw [hbusy]
      rfl
    · rw [getHostFromList_eq]
      simp [nextCnt, choice, rotated, hosts, hidle]

/-! ## Turns -/

/-- A call shows the host in turn of the list that it takes from, or overload if there is no idle
host. -/
inductive Served (lb : LoadBalance) (turn : HostList → ℕ) (hInfo : HostInfo) : Choice → Prop
  | taken (l : HostList) (it : HostInfo)
      (h : (lb.hosts l)[turn l % (lb.hosts l).length]? = some it) :
      Served lb turn hInfo ⟨LarsRetCode.succ.toInt, hInfo.setHost it, some l⟩
  | overload (h : lb.mIdleList = []) :
      Served lb turn hInfo ⟨LarsRetCode.overload.toInt, hInfo, none⟩

/-- Calls of `choice_one_host` with `hInfos`, on a counter of `c`, have shown `outs`. -/
structure Fair (lb : LoadBalance) (c : ℕ) (hInfos : List HostInfo) (outs : List Choice)
    (lb' : LoadBalance) : Prop where
  length : outs.length = hInfos.length
  /-- Every eleventh call takes a busy host. -/
  busy_calls : outs.countP (Choice.takes .busy) = (c + hInfos.length) / 11
  /-- The hosts of a list are returned in turn. -/
  served : ∀ (i : ℕ) (hInfo : HostInfo) (o : Choice), hInfos[i]? = some hInfo → outs[i]? = some o →
    lb.Served (fun l => turnAt (Choice.takes l) outs i) hInfo o
  counter : lb'.mAccessCnt.toInt = ((c + hInfos.length) % 11 : ℕ)
  rotated : ∀ l, lb'.hosts l = (lb.hosts l).rotate (outs.countP (Choice.takes l))

theorem hosts_rotated (lb : LoadBalance) (cnt : Int32) (t : Option HostList) (l : HostList) :
    (lb.rotated cnt t).hosts l = (lb.hosts l).rotate (if t = some l then 1 else 0) := by
  cases l with
  | idle =>
    change (if t = some .idle then lb.mIdleList.rotate 1 else lb.mIdleList) = _
    split_ifs
    · rfl
    · exact (List.rotate_zero _).symm
  | busy =>
    change (if t = some .busy then lb.mBusyList.rotate 1 else lb.mBusyList) = _
    split_ifs
    · rfl
    · exact (List.rotate_zero _).symm

theorem addInt_one_eq_ok {a b : Int32} :
    addInt a 1 = .ok b ↔ a.toInt < 2 ^ 31 - 1 ∧ b.toInt = a.toInt + 1 := by
  have hle := a.le_toInt
  have hfits : SumFits a 1 ↔ a.toInt < 2 ^ 31 - 1 := by
    rw [SumFits, show (1 : Int32).toInt = 1 from rfl]
    omega
  unfold addInt
  split_ifs with h
  · have hlt := hfits.mp h
    rw [Except.ok.injEq, ← toInt_add_one hlt, Int32.toInt_inj, eq_comm, and_iff_right hlt]
  · exact iff_of_false (fun herr => nomatch herr) fun hand => h (hfits.mpr hand.1)

theorem taken_eq_busy_iff {lb : LoadBalance} :
    lb.taken = some .busy ↔ 10 ≤ lb.mAccessCnt.toInt ∧ (lb.mIdleList = [] ∨ lb.mBusyList ≠ []) := by
  unfold taken
  split_ifs with h h' <;> simp [h]

/-- A call with a busy host takes it if the counter is 10, and counts otherwise. -/
theorem choiceOneHost_of_le {lb : LoadBalance} {c : ℕ} (hbusy : lb.mBusyList ≠ [])
    (hcnt : lb.mAccessCnt.toInt = c) (hle : c ≤ 10) (hInfo : HostInfo) :
    ∃ cnt, lb.choiceOneHost hInfo = .ok (lb.choice hInfo lb.taken, lb.rotated cnt lb.taken) ∧
      cnt.toInt = ((c + 1) % 11 : ℕ) ∧ (lb.taken = some .busy ↔ c = 10) := by
  rw [choiceOneHost_eq]
  by_cases h10 : c = 10
  · have htaken : lb.taken = some .busy := if_pos ⟨by omega, Or.inr hbusy⟩
    refine ⟨0, ?_, by rw [h10]; rfl, iff_of_true htaken h10⟩
    rw [htaken]
    rfl
  · have htaken : lb.taken ≠ some .busy := fun h => by
      have := (taken_eq_busy_iff.mp h).1
      omega
    have hlt : lb.mAccessCnt.toInt < 2 ^ 31 - 1 := by omega
    have hsucc := toInt_add_one hlt
    refine ⟨lb.mAccessCnt + 1, ?_, by omega, iff_of_false htaken h10⟩
    rw [nextCnt, if_neg htaken, addInt_one_eq_ok.mpr ⟨hlt, hsucc⟩]
    rfl

@[simp] theorem choice_taken (lb : LoadBalance) (hInfo : HostInfo) (t : Option HostList) :
    (lb.choice hInfo t).taken = t := by
  cases t with
  | none => rfl
  | some l => rfl

/-- What a call shows, on lists that have been rotated. -/
theorem served_choice {lb lb' : LoadBalance} {turn : HostList → ℕ} (hbusy : lb.mBusyList ≠ [])
    (hrot : ∀ l, lb'.hosts l = (lb.hosts l).rotate (turn l)) (hInfo : HostInfo) :
    lb.Served turn hInfo (lb'.choice hInfo lb'.taken) := by
  have hidle : lb'.mIdleList = [] ↔ lb.mIdleList = [] := by
    rw [show lb'.mIdleList = lb.mIdleList.rotate (turn .idle) from hrot .idle,
      List.rotate_eq_nil_iff]
  have htakes : ∀ l, lb.hosts l ≠ [] →
      lb.Served turn hInfo (lb'.choice hInfo (some l)) := by
    intro l hl
    have hlt := Nat.mod_lt (turn l) (List.length_pos_iff.mpr hl)
    have hit := List.getElem?_eq_getElem hlt
    have hhead := (hrot l ▸ head?_rotate_mod hl (turn l)).trans hit
    rw [choice, hhead]
    exact .taken l _ hit
  unfold taken
  split_ifs with h10 hnil
  · exact htakes .busy hbusy
  · exact .overload (hidle.mp hnil)
  · exact htakes .idle fun h => hnil (hidle.mpr h)

/-- **Fairness, step**: a call after calls that have been served fairly is so too. -/
theorem Fair.choiceOneHost {lb lb' : LoadBalance} {c : ℕ} {hInfos : List HostInfo}
    {outs : List Choice} (h : Fair lb c hInfos outs lb') (hbusy : lb.mBusyList ≠ [])
    (hInfo : HostInfo) :
    ∃ o lb'', lb'.choiceOneHost hInfo = .ok (o, lb'') ∧
      Fair lb c (hInfos ++ [hInfo]) (outs ++ [o]) lb'' := by
  have hbusy' : lb'.mBusyList ≠ [] := by
    rw [show lb'.mBusyList = _ from h.rotated .busy, ne_eq, List.rotate_eq_nil_iff]
    exact hbusy
  obtain ⟨cnt, hcall, hcnt, htaken⟩ :=
    choiceOneHost_of_le hbusy' h.counter (Nat.le_of_lt_succ (Nat.mod_lt _ (by decide))) hInfo
  have hcount : ∀ l, (outs ++ [lb'.choice hInfo lb'.taken]).countP (Choice.takes l) =
      outs.countP (Choice.takes l) + if lb'.taken = some l then 1 else 0 := by
    intro l
    rw [List.countP_append, List.countP_singleton]
    simp only [Choice.takes, choice_taken, decide_eq_true_eq]
  refine ⟨_, _, hcall, ?_, ?_, ?_, ?_, ?_⟩
  · rw [List.length_append, List.length_append, h.length]
    rfl
  · rw [hcount, h.busy_calls, List.length_append, List.length_singleton]
    simp only [htaken]
    split_ifs <;> omega
  · intro i hInfo' o hi ho
    rcases Nat.lt_or_ge i outs.length with hlt | hge
    · rw [List.getElem?_append_left (h.length ▸ hlt)] at hi
      rw [List.getElem?_append_left hlt] at ho
      simp only [turnAt_append _ hlt.le]
      exact h.served i hInfo' o hi ho
    · obtain ⟨rfl, rfl⟩ : i = outs.length ∧ lb'.choice hInfo lb'.taken = o := by
        rw [List.getElem?_append_right hge, List.getElem?_singleton] at ho
        split_ifs at ho with h0
        exact ⟨by omega, Option.some.inj ho⟩
      obtain rfl : hInfo = hInfo' := by
        rw [h.length, List.getElem?_concat_length] at hi
        exact Option.some.inj hi
      simp only [turnAt_append _ le_rfl, turnAt_length]
      exact served_choice hbusy h.rotated hInfo
  · rw [List.length_append, List.length_singleton]
    change cnt.toInt = _
    omega
  · intro l
    rw [hosts_rotated, h.rotated, List.rotate_rotate, hcount]

/-- **Fairness**: with a busy host and the counter at `c`, at most 10, of any `n` calls
`(c + n) / 11` take a busy host; the others take an idle one, or report overload if there is none.
All return the next host of the list, both lists end as rotations of themselves, and no host has
been returned twice more often than another of its list. -/
theorem run_fair (lb : LoadBalance) {c : ℕ} (hbusy : lb.mBusyList ≠ [])
    (hcnt : lb.mAccessCnt.toInt = c) (hle : c ≤ 10) (hInfos : List HostInfo) :
    ∃ outs lb', run LoadBalance.choiceOneHost lb hInfos = .ok (outs, lb') ∧
      Fair lb c hInfos outs lb' ∧
      ∀ l, ∀ j < (lb.hosts l).length, ∀ j' < (lb.hosts l).length,
        turnsOf (Choice.takes l) (lb.hosts l).length j outs outs.length ≤
          turnsOf (Choice.takes l) (lb.hosts l).length j' outs outs.length + 1 := by
  suffices ∃ outs lb', run LoadBalance.choiceOneHost lb hInfos = .ok (outs, lb') ∧
      Fair lb c hInfos outs lb' by
    obtain ⟨outs, lb', hrun, hfair⟩ := this
    exact ⟨outs, lb', hrun, hfair, fun l j hj j' hj' => turnsOf_le _ hj hj' outs outs.length⟩
  induction hInfos using List.reverseRecOn with
  | nil =>
    refine ⟨[], lb, rfl, rfl, ?_, fun _ _ _ hi => (nomatch hi), ?_, fun l => ?_⟩
    · exact (Nat.div_eq_of_lt (Nat.lt_succ_of_le hle)).symm
    · rw [hcnt, List.length_nil, Nat.add_zero, Nat.mod_eq_of_lt (by omega)]
    · exact (List.rotate_zero _).symm
  | append_singleton hInfos hInfo ih =>
    obtain ⟨outs, lb', hrun, hfair⟩ := ih
    obtain ⟨o, lb'', hcall, hfair'⟩ := hfair.choiceOneHost hbusy hInfo
    exact ⟨outs ++ [o], lb'', run_append_ok hrun
      (run_cons_eq_ok.mpr ⟨o, lb'', [], hcall, rfl, rfl⟩), hfair'⟩

/-- A host with that address. -/
def hostAt (ip : UInt32) : HostInfo := { ip, port := 80 }

/-- Two idle hosts and two busy ones, with the counter at the tenth call. -/
def twoOfEach : LoadBalance :=
  { LoadBalance.new ⟨none, 9⟩ 1 2 with
    mIdleList := [hostAt 1, hostAt 2]
    mBusyList := [hostAt 3, hostAt 4] }

theorem run_fair_thrice :
    ∃ outs lb', run LoadBalance.choiceOneHost twoOfEach (List.replicate 3 (hostAt 0)) =
        .ok (outs, lb') ∧
      Fair twoOfEach 9 (List.replicate 3 (hostAt 0)) outs lb' ∧
      ∀ l, ∀ j < (twoOfEach.hosts l).length, ∀ j' < (twoOfEach.hosts l).length,
        turnsOf (Choice.takes l) (twoOfEach.hosts l).length j outs outs.length ≤
          turnsOf (Choice.takes l) (twoOfEach.hosts l).length j' outs outs.length + 1 :=
  run_fair twoOfEach (by decide) rfl (by decide) _

/-! ## The counter -/

/-- A call of `choice_one_host`, with the lists as they are then. -/
structure HostCall where
  idle : List HostInfo
  busy : List HostInfo
  hInfo : HostInfo

/-- `load_balance::choice_one_host`, on lists among which hosts have been moved. -/
def serve (lb : LoadBalance) (call : HostCall) : Except Halt (Choice × LoadBalance) :=
  choiceOneHost { lb with mIdleList := call.idle, mBusyList := call.busy } call.hInfo

/-- The eleven calls from the `i`-th on all have a busy host. -/
def BusyFrom (calls : List HostCall) (i : ℕ) : Prop :=
  i + 11 ≤ calls.length ∧ ∀ call ∈ (calls.drop i).take 11, call.busy ≠ []

/-- The calls on a new `load_balance` count without overflow, and of eleven successive calls with a
busy host one takes it. -/
def Sound (u : Uninitialized) (modid cmdid : Int32) (calls : List HostCall) : Prop :=
  ∃ outs lb, run serve (LoadBalance.new u modid cmdid) calls = .ok (outs, lb) ∧
    ∀ i, BusyFrom calls i → ∃ o ∈ (outs.drop i).take 11, o.takes .busy = true

/-- A call that looks at the counter: it has a busy host, or no idle one. The others count whatever
the counter is. -/
def HostCall.Checks (call : HostCall) : Prop := call.idle = [] ∨ call.busy ≠ []

instance : DecidablePred HostCall.Checks := fun _ => inferInstanceAs (Decidable (_ ∨ _))

/-- The calls since the last reset, if there have been `n` before this one; a call that checks is a
reset if there have been ten. -/
def sinceNext (n : ℤ) (call : HostCall) : ℤ := if 10 ≤ n ∧ call.Checks then 0 else n + 1

/-- The calls since the last reset. If there has been none they are counted from `v`. -/
def sinceReset (v : ℤ) (calls : List HostCall) : ℤ := calls.foldl sinceNext v

/-- No stretch of calls that do not check is too long for an `int`, with the calls since the last
reset before it. -/
def StretchesFit (v : ℤ) (calls : List HostCall) : Prop :=
  ∀ pre stretch post, calls = pre ++ stretch ++ post → (∀ call ∈ stretch, ¬ call.Checks) →
    sinceReset v pre + stretch.length < 2 ^ 31

/-- A call that takes no host of a non-empty busy list counts up to 10. -/
theorem exists_choiceOneHost_iff (lb : LoadBalance) (hInfo : HostInfo) :
    (∃ o lb', lb.choiceOneHost hInfo = .ok (o, lb')) ↔
      (lb.mIdleList ≠ [] → lb.mBusyList = [] → lb.mAccessCnt.toInt < 2 ^ 31 - 1) := by
  rw [choiceOneHost_eq]
  by_cases htaken : lb.taken = some .busy
  · rw [nextCnt, if_pos htaken]
    refine iff_of_true ⟨_, _, rfl⟩ fun hidle hbusy => ?_
    exact absurd hbusy ((taken_eq_busy_iff.mp htaken).2.resolve_left hidle)
  · rw [nextCnt, if_neg htaken]
    constructor
    · rintro ⟨o, lb', h⟩ - -
      obtain ⟨cnt, hcnt, -⟩ := bind_eq_ok.mp h
      exact (addInt_one_eq_ok.mp hcnt).1
    · intro hfits
      have hlt : lb.mAccessCnt.toInt < 2 ^ 31 - 1 := by
        by_contra hcon
        have hor : ¬ (lb.mIdleList = [] ∨ lb.mBusyList ≠ []) := fun hor =>
          htaken (taken_eq_busy_iff.mpr ⟨by omega, hor⟩)
        push Not at hor
        exact hcon (hfits hor.1 hor.2)
      rw [addInt_one_eq_ok.mpr ⟨hlt, toInt_add_one hlt⟩]
      exact ⟨_, _, rfl⟩

theorem exists_serve_iff (lb : LoadBalance) (call : HostCall) :
    (∃ o lb', serve lb call = .ok (o, lb')) ↔
      (¬ call.Checks → lb.mAccessCnt.toInt < 2 ^ 31 - 1) := by
  rw [HostCall.Checks, not_or, not_not, and_imp]
  exact exists_choiceOneHost_iff { lb with mIdleList := call.idle, mBusyList := call.busy } _

/-- What a call does to the counter. -/
theorem serve_counter {lb lb' : LoadBalance} {call : HostCall} {o : Choice}
    (h : serve lb call = .ok (o, lb')) :
    (o.takes .busy = true ∧ (10 ≤ lb.mAccessCnt.toInt ∧ call.Checks) ∧
        lb'.mAccessCnt.toInt = 0) ∨
    (o.takes .busy = false ∧ ¬ (10 ≤ lb.mAccessCnt.toInt ∧ call.Checks) ∧
        lb'.mAccessCnt.toInt = lb.mAccessCnt.toInt + 1) := by
  rw [serve, choiceOneHost_eq, bind_eq_ok] at h
  obtain ⟨cnt, hcnt, hout⟩ := h
  obtain ⟨rfl, rfl⟩ := Prod.mk.inj (Except.ok.inj hout)
  rw [Choice.takes, choice_taken, decide_eq_true_eq, decide_eq_false_iff_not]
  unfold nextCnt at hcnt
  split_ifs at hcnt with htaken
  · obtain rfl := Except.ok.inj hcnt
    exact Or.inl ⟨htaken, taken_eq_busy_iff.mp htaken, rfl⟩
  · exact Or.inr ⟨htaken, fun h => htaken (taken_eq_busy_iff.mpr h), (addInt_one_eq_ok.mp hcnt).2⟩

/-- **The counter is the calls since the last reset**. -/
theorem serve_sinceNext {lb lb' : LoadBalance} {call : HostCall} {o : Choice}
    (h : serve lb call = .ok (o, lb')) :
    lb'.mAccessCnt.toInt = sinceNext lb.mAccessCnt.toInt call := by
  unfold sinceNext
  obtain ⟨-, hreset, hcnt⟩ | ⟨-, hcount, hcnt⟩ := serve_counter h
  · rw [if_pos hreset, hcnt]
  · rw [if_neg hcount, hcnt]

theorem stretchesFit_nil {v : ℤ} (hv : v < 2 ^ 31) : StretchesFit v [] := by
  intro pre stretch post h _
  obtain ⟨hpre, -⟩ := List.append_eq_nil_iff.mp h.symm
  obtain ⟨rfl, rfl⟩ := List.append_eq_nil_iff.mp hpre
  simpa [sinceReset] using hv

/-- The stretches of a list are those behind its first call, and those that begin with it. -/
theorem stretchesFit_cons {v : ℤ} (hv : v < 2 ^ 31) (call : HostCall) (calls : List HostCall) :
    StretchesFit v (call :: calls) ↔ StretchesFit (sinceNext v call) calls := by
  constructor
  · intro h pre stretch post hcalls hstretch
    exact h (call :: pre) stretch post (congrArg (call :: ·) hcalls) hstretch
  · intro h pre stretch post hcalls hstretch
    cases pre with
    | cons call' pre =>
      obtain ⟨rfl, hrest⟩ := List.cons.inj hcalls
      exact h pre stretch post hrest hstretch
    | nil =>
      cases stretch with
      | nil => simpa [sinceReset] using hv
      | cons call' stretch =>
        obtain ⟨rfl, hrest⟩ := List.cons.inj hcalls
        obtain ⟨hhead, htail⟩ := List.forall_mem_cons.mp hstretch
        have hnext : sinceNext v call = v + 1 := if_neg fun h => hhead h.2
        have hfit := h [] stretch post hrest htail
        rw [sinceReset, List.foldl_nil, hnext] at hfit
        rw [sinceReset, List.foldl_nil, List.length_cons]
        push_cast
        omega

/-- A call that checks leaves at most ten calls since the last reset. -/
theorem sinceNext_le {call : HostCall} (h : call.Checks) (n : ℤ) : sinceNext n call ≤ 10 := by
  unfold sinceNext
  split_ifs with hreset
  · decide
  · have hlt : n < 10 := not_le.mp fun hn => hreset ⟨hn, h⟩
    omega

/-- With a counter of at most 10 to begin with, only very long stretches do harm. -/
theorem stretchesFit_of_short {v : ℤ} (hv : v ≤ 10) {calls : List HostCall}
    (h : ∀ stretch, stretch <:+: calls → (∀ call ∈ stretch, ¬ call.Checks) →
      stretch.length < 2 ^ 31 - 10) : StretchesFit v calls := by
  intro pre stretch post hcalls hstretch
  -- back from the stretch to the last call that checks
  induction pre using List.reverseRecOn generalizing stretch with
  | nil =>
    have hlen := h stretch ⟨[], post, hcalls.symm⟩ hstretch
    rw [sinceReset, List.foldl_nil]
    omega
  | append_singleton pre call ih =>
    have hlast : sinceReset v (pre ++ [call]) = sinceNext (sinceReset v pre) call := by
      rw [sinceReset, List.foldl_append]
      rfl
    rw [hlast]
    by_cases hchecks : call.Checks
    · have hlen := h stretch ⟨pre ++ [call], post, hcalls.symm⟩ hstretch
      have hle := sinceNext_le hchecks (sinceReset v pre)
      omega
    · have hlonger := ih (call :: stretch) (by simpa using hcalls)
        (List.forall_mem_cons.mpr ⟨hchecks, hstretch⟩)
      rw [sinceNext, if_neg fun hreset => hchecks hreset.2]
      rw [List.length_cons] at hlonger
      push_cast at hlonger
      omega

/-- **No overflow**: calls are served if and only if their stretches fit. -/
theorem exists_run_iff (lb : LoadBalance) (calls : List HostCall) :
    (∃ outs lb', run serve lb calls = .ok (outs, lb')) ↔
      StretchesFit lb.mAccessCnt.toInt calls := by
  have hlt : ∀ lb : LoadBalance, lb.mAccessCnt.toInt < 2 ^ 31 := fun lb => lb.mAccessCnt.toInt_lt
  induction calls generalizing lb with
  | nil => exact iff_of_true ⟨[], lb, rfl⟩ (stretchesFit_nil (hlt lb))
  | cons call calls ih =>
    rw [stretchesFit_cons (hlt lb)]
    constructor
    · rintro ⟨outs, lb', hrun⟩
      obtain ⟨o, lb₁, os, hcall, hrest, -⟩ := run_cons_eq_ok.mp hrun
      exact serve_sinceNext hcall ▸ (ih lb₁).mp ⟨os, lb', hrest⟩
    · intro hfit
      have hcounts : ¬ call.Checks → lb.mAccessCnt.toInt < 2 ^ 31 - 1 := by
        intro hchecks
        have hnext := hfit [] [] calls rfl fun c hc => absurd hc List.not_mem_nil
        rw [sinceReset, List.foldl_nil, sinceNext, if_neg fun h => hchecks h.2] at hnext
        simp only [List.length_nil] at hnext
        omega
      obtain ⟨o, lb₁, hcall⟩ := (exists_serve_iff lb call).mpr hcounts
      obtain ⟨os, lb', hrest⟩ := (ih lb₁).mpr (serve_sinceNext hcall ▸ hfit)
      exact ⟨o :: os, lb', run_cons_eq_ok.mpr ⟨o, lb₁, os, hcall, hrest, rfl⟩⟩

/-- Below 0 the counter counts all calls, and it never falls below 0. -/
theorem run_counter {calls : List HostCall} {lb lb' : LoadBalance} {outs : List Choice}
    (h : run serve lb calls = .ok (outs, lb')) :
    0 ≤ lb'.mAccessCnt.toInt ↔ 0 ≤ lb.mAccessCnt.toInt + calls.length := by
  induction calls generalizing lb outs with
  | nil =>
    obtain ⟨-, rfl⟩ : [] = outs ∧ lb = lb' := by simpa using h
    simp
  | cons call calls ih =>
    obtain ⟨o, lb₁, os, hcall, hrun, rfl⟩ := run_cons_eq_ok.mp h
    rw [ih hrun, List.length_cons]
    obtain ⟨-, ⟨h10, -⟩, hcnt⟩ | ⟨-, -, hcnt⟩ := serve_counter hcall <;> omega

/-- Calls with a busy host take none if and only if the counter does not pass 10. -/
theorem run_not_takes_iff {calls : List HostCall} {lb lb' : LoadBalance} {outs : List Choice}
    (h : run serve lb calls = .ok (outs, lb')) (hbusy : ∀ call ∈ calls, call.busy ≠ [])
    (hne : calls ≠ []) :
    (∀ o ∈ outs, o.takes .busy = false) ↔ lb.mAccessCnt.toInt + calls.length ≤ 10 := by
  induction calls generalizing lb outs with
  | nil => exact absurd rfl hne
  | cons call calls ih =>
    obtain ⟨o, lb₁, os, hcall, hrun, rfl⟩ := run_cons_eq_ok.mp h
    have hhead := hbusy call List.mem_cons_self
    rw [List.forall_mem_cons, List.length_cons]
    obtain ⟨htakes, ⟨h10, -⟩, hcnt⟩ | ⟨htakes, h10, hcnt⟩ := serve_counter hcall
    · refine iff_of_false (fun hall => ?_) (by omega)
      exact absurd (hall.1.symm.trans htakes) Bool.false_ne_true
    · have hlt : lb.mAccessCnt.toInt < 10 :=
        not_le.mp fun hcon => h10 ⟨hcon, Or.inr hhead⟩
      rw [and_iff_right htakes]
      rcases eq_or_ne calls [] with rfl | hcalls
      · obtain ⟨rfl, -⟩ : [] = os ∧ lb₁ = lb' := by simpa using hrun
        simp only [List.length_nil]
        exact iff_of_true (by simp) (by omega)
      · rw [ih hrun (fun c hc => hbusy c (List.mem_cons_of_mem call hc)) hcalls, hcnt]
        omega

/-- Eleven calls with a busy host, taken from a run. -/
theorem exists_takes_iff {lb lb' : LoadBalance} {calls : List HostCall} {outs : List Choice} {i : ℕ}
    (h : run serve lb calls = .ok (outs, lb')) (hbusy : BusyFrom calls i) :
    (∃ o ∈ (outs.drop i).take 11, o.takes .busy = true) ↔ 0 ≤ lb.mAccessCnt.toInt + i := by
  obtain ⟨hlen, hall⟩ := hbusy
  obtain ⟨lb₁, htake, hdrop⟩ := run_take_drop i h
  obtain ⟨lb₂, hwindow, -⟩ := run_take_drop 11 hdrop
  have hpre : (calls.take i).length = i := List.length_take_of_le (by omega)
  have helev : ((calls.drop i).take 11).length = 11 :=
    List.length_take_of_le (by rw [List.length_drop]; omega)
  have hcnt := run_counter htake
  have hnone := run_not_takes_iff hwindow hall fun h => by
    rw [h] at helev
    cases helev
  rw [hpre] at hcnt
  rw [helev] at hnone
  rw [← hcnt, ← not_iff_not]
  push Not
  simp only [Bool.not_eq_true]
  rw [hnone]
  omega

/-- **The counter**: what was in memory before the construction, and the calls, are harmless if and
only if the stretches of calls that do not check fit, and the value in memory and the calls made
come to 0 at least when eleven successive calls with a busy host begin. -/
theorem sound_iff (u : Uninitialized) (modid cmdid : Int32) (calls : List HostCall) :
    Sound u modid cmdid calls ↔
      StretchesFit u.mAccessCnt.toInt calls ∧
      ∀ i, BusyFrom calls i → 0 ≤ u.mAccessCnt.toInt + i := by
  rw [← show (LoadBalance.new u modid cmdid).mAccessCnt = u.mAccessCnt from rfl, ← exists_run_iff]
  constructor
  · rintro ⟨outs, lb, hrun, hwindow⟩
    exact ⟨⟨outs, lb, hrun⟩, fun i hbusy => (exists_takes_iff hrun hbusy).mp (hwindow i hbusy)⟩
  · rintro ⟨⟨outs, lb, hrun⟩, hcnt⟩
    exact ⟨outs, lb, hrun, fun i hbusy => (exists_takes_iff hrun hbusy).mpr (hcnt i hbusy)⟩

/-- A call that has an idle host to take. -/
def idleCall : HostCall := ⟨[hostAt 1], [], hostAt 0⟩

/-- A call that has an idle host to take, and a busy one. -/
def busyCall : HostCall := ⟨[hostAt 1], [hostAt 2], hostAt 0⟩

/-- `INT_MAX` was in memory, and the first call overflows; with -1, eleven calls with a busy host
take none. -/
theorem not_sound :
    (¬ ∀ u modid cmdid calls, Sound u modid cmdid calls) ∧
    ¬ Sound ⟨none, -1⟩ 1 2 (List.replicate 11 busyCall) := by
  constructor
  · intro hall
    obtain ⟨outs, lb, hrun, -⟩ := hall ⟨none, 2147483647⟩ 1 2 [idleCall]
    have hover : run serve (LoadBalance.new ⟨none, 2147483647⟩ 1 2) [idleCall] =
        .error .undefined := rfl
    rw [hover] at hrun
    cases hrun
  · rintro ⟨outs, lb, hrun, hwindow⟩
    have hbusy : BusyFrom (List.replicate 11 busyCall) 0 := by
      refine ⟨le_rfl, fun call hcall => ?_⟩
      rw [List.eq_of_mem_replicate (List.mem_of_mem_take hcall)]
      decide
    have hnone : (run serve (LoadBalance.new ⟨none, -1⟩ 1 2) (List.replicate 11 busyCall)).map
        (fun r => r.1.all fun o => !o.takes .busy) = .ok true := by decide
    obtain ⟨o, ho, htakes⟩ := hwindow 0 hbusy
    rw [hrun] at hnone
    have hall := List.all_eq_true.mp (Except.ok.inj hnone) o (List.mem_of_mem_take ho)
    rw [htakes] at hall
    cases hall

end LoadBalance

end Lars.Agent
