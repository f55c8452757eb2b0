import Lars.Foundations.Decimal
import Lars.Reporter.StoreReport

/-!
# The statements that store reports

`store_reporter::store` (`lars_reporter/src/store_report.cc`) prints a statement for each result
into 1024 bytes, and sends it to MySQL; if that fails, it goes on to the next one. `CallMysql` is
what it relies on: what a statement that is carried out does to the rows, if the columns of
`base/sql/lars_dns.sql`, which are signed, can hold the numbers in it. The reporter is here as it
goes through the texts.

* No statement is cut, and those that are carried out do what the upserts of the results do: the
  reporter with the texts does in every run what it does with the upserts (`run_statements`).
-/

namespace Lars.Reporter

open Machine Decimal

/-! ## Statements -/

/-- The statement with the numbers printed: `v` for a row that is new, `v'` for one that is there. -/
def insert (k : CallKey) (v v' : CallStatus) : List Piece :=
  let comma := .chars (text ", ")
  [.chars (text "INSERT INTO ServerCallStatus(modid, cmdid, ip, port, caller, succ_cnt, err_cnt, "),
    .chars (text "ts, overload) VALUES ("),
    .number k.modid.toInt, comma, .number k.cmdid.toInt, comma, .number k.ip.toNat, comma,
    .number k.port.toNat, comma, .number k.caller.toNat, comma, .number v.succCnt.toNat, comma,
    .number v.errCnt.toNat, comma, .number v.ts.toNat, comma, .number v.overload.toInt,
    .chars (text ") ON DUPLICATE KEY UPDATE succ_cnt = "), .number v'.succCnt.toNat,
    .chars (text ", err_cnt = "), .number v'.errCnt.toNat, .chars (text ", ts = "),
    .number v'.ts.toNat, .chars (text ", overload = "), .number v'.overload.toInt]

/-- A column `int(11)` can hold the number. -/
def FitsColumn (n : UInt32) : Prop := n.toNat < 2 ^ 31

instance : DecidablePred FitsColumn := fun _ => inferInstanceAs (Decidable (_ < _))

/-- The columns of the key can hold it; `modid` and `cmdid` are printed as they are. -/
def CallKey.Fits (k : CallKey) : Prop :=
  FitsColumn k.ip ∧ FitsColumn k.port ∧ FitsColumn k.caller

/-- The other columns can hold the status; `ts` is a `bigint`, and `overload` one character. -/
def CallStatus.Fits (v : CallStatus) : Prop :=
  FitsColumn v.succCnt ∧ FitsColumn v.errCnt ∧ (v.overload = 0 ∨ v.overload = 1)

instance (k : CallKey) : Decidable k.Fits := inferInstanceAs (Decidable (_ ∧ _))

instance (v : CallStatus) : Decidable v.Fits := inferInstanceAs (Decidable (_ ∧ _))

/-- What a statement that is carried out does to the rows of `ServerCallStatus`. -/
structure CallMysql where
  query : List UInt8 → ServerCallStatus → ServerCallStatus
  insert_duplicate (k : CallKey) (v v' : CallStatus) (table : ServerCallStatus) (hk : k.Fits)
    (hv : v.Fits) (hv' : v'.Fits) :
    query (print (insert k v v')) table =
      Function.update table k (some (if table k = none then v else v'))

/-- The statements of `store_reporter::store`. -/
def statements (req : ReportStatusRequest) : List (List UInt8) :=
  req.results.map fun result =>
    let overload : Int32 := if result.overload then 1 else 0
    let key : CallKey := ⟨req.modid, req.cmdid, result.ip.toUInt32, result.port.toUInt32,
      req.caller.toUInt32⟩
    let status : CallStatus := ⟨result.succ, result.err, req.ts, overload⟩
    snprintf 1024 (insert key status status)

/-! ## The reporter -/

/-- What happens in the reporter, with the answers of MySQL. -/
inductive StatementEvent
  /-- A step; the statement that it sends, if any, is carried out. -/
  | step (e : StoreEvent)
  /-- `mysql_real_query` fails for the next statement of a loop. -/
  | fail (loop : ℕ)
  deriving DecidableEq

namespace ReporterServer

/-- A step with the upserts, or one that is left out. -/
def stepOrFail (s : ReporterServer) :
    StatementEvent → Except Disabled (Option (ℕ × CallKey × CallStatus) × ReporterServer)
  | .step e => s.step e
  | .fail loop =>
    match s.tasks loop with
    | [] | [] :: _ => .error .disabled
    | (_ :: ps) :: tasks =>
      .ok (none, { s with tasks := Function.update s.tasks loop (ps :: tasks) })

/-- An upsert whose statement is carried out has values that the columns can hold. -/
def Holds (s : ReporterServer) : StatementEvent → Prop
  | .step (.run loop) =>
    ∀ p ps tasks, s.tasks loop = (p :: ps) :: tasks → p.1.Fits ∧ p.2.Fits
  | _ => True

end ReporterServer

/-- The reporter: the tasks of each loop with the statements that are left of each. -/
structure TextReporter where
  pool : EventLoopThreadPool
  tasks : ℕ → List (List (List UInt8)) := fun _ => []
  table : ServerCallStatus

namespace TextReporter

/-- The reporter after `start`. -/
def start (threadNum : ℤ) (table : ServerCallStatus) : TextReporter :=
  { pool := { threadNum := threadNum }, table := table }

/-- `get_report_status`. -/
def getReportStatus (s : TextReporter) (req : ReportStatusRequest) : TextReporter :=
  match s.pool.getNextLoop with
  | (none, pool) => { s with pool := pool }
  | (some loop, pool) =>
    { s with pool := pool, tasks := Function.update s.tasks loop (s.tasks loop ++ [statements req]) }

/-- A step, with the loop whose statement is carried out. -/
def step (mysql : CallMysql) (s : TextReporter) :
    StatementEvent → Except Disabled (Option ℕ × TextReporter)
  | .step (.handle req) => .ok (none, s.getReportStatus req)
  | .step (.run loop) =>
    match s.tasks loop with
    | [] => .error .disabled
    | [] :: tasks => .ok (none, { s with tasks := Function.update s.tasks loop tasks })
    | (sql :: sqls) :: tasks =>
      .ok (some loop, { s with
        tasks := Function.update s.tasks loop (sqls :: tasks)
        table := mysql.query sql s.table })
  | .fail loop =>
    match s.tasks loop with
    | [] | [] :: _ => .error .disabled
    | (_ :: sqls) :: tasks =>
      .ok (none, { s with tasks := Function.update s.tasks loop (sqls :: tasks) })

end TextReporter

/-! ## Statements are upserts -/

/-- The statement for an upsert. -/
def statement (p : CallKey × CallStatus) : List UInt8 := print (insert p.1 p.2 p.2)

/-- Numbers of 32 bits have no more than eleven characters. -/
theorem length_decimal_toNat (n : UInt32) : (decimal n.toNat).length ≤ 11 := by
  have hlt := n.toNat_lt
  exact length_decimal_le (k := 10) (by decide) (by omega)

theorem length_decimal_toInt (n : Int32) : (decimal n.toInt).length ≤ 11 := by
  have hlo := n.le_toInt
  have hhi := n.toInt_lt
  exact length_decimal_le (k := 10) (by decide) (by omega)

/-- **No statement is cut.** -/
theorem snprintf_insert (k : CallKey) (v v' : CallStatus) :
    snprintf 1024 (insert k v v') = print (insert k v v') := by
  refine snprintf_eq (k := 11) ?_
    (by decide : Shape.size 11 ((insert ⟨0, 0, 0, 0, 0⟩ ⟨0, 0, 0, 0⟩ ⟨0, 0, 0, 0⟩).map
      Piece.shape) < 1024)
  have hnumbers : (insert k v v').filterMap Piece.number? =
      [k.modid.toInt, k.cmdid.toInt, k.ip.toNat, k.port.toNat, k.caller.toNat, v.succCnt.toNat,
        v.errCnt.toNat, v.ts.toNat, v.overload.toInt, v'.succCnt.toNat, v'.errCnt.toNat,
        v'.ts.toNat, v'.overload.toInt] := rfl
  simp only [hnumbers, List.forall_mem_cons, length_decimal_toNat, length_decimal_toInt,
    List.not_mem_nil, false_imp_iff, implies_true, and_self]

theorem statements_eq (req : ReportStatusRequest) : statements req = (store req).map statement := by
  rw [store, List.map_map]
  exact List.map_congr_left fun result _ => snprintf_insert _ _ _

/-- A statement with one status writes it, whether the row is there or not. -/
theorem query_statement (mysql : CallMysql) {p : CallKey × CallStatus} (hkey : p.1.Fits)
    (hstatus : p.2.Fits) (table : ServerCallStatus) :
    mysql.query (statement p) table = write table p := by
  rw [statement, mysql.insert_duplicate _ _ _ _ hkey hstatus hstatus, ite_self]
  rfl

/-- The reporter with the statements of its upserts. -/
def texts (s : ReporterServer) : TextReporter where
  pool := s.pool
  tasks loop := (s.tasks loop).map (List.map statement)
  table := s.table

/-- Tasks changed, with their statements. -/
theorem texts_update (s : ReporterServer) (loop : ℕ) (tasks : List (List (CallKey × CallStatus)))
    (pool : EventLoopThreadPool) (table : ServerCallStatus) :
    texts ⟨pool, Function.update s.tasks loop tasks, table⟩ =
      ⟨pool, Function.update (texts s).tasks loop (tasks.map (List.map statement)), table⟩ :=
  congrArg (fun t => (⟨pool, t, table⟩ : TextReporter))
    (Function.comp_update (List.map (List.map statement)) s.tasks loop tasks)

theorem texts_getReportStatus (s : ReporterServer) (req : ReportStatusRequest) :
    (texts s).getReportStatus req = texts (s.getReportStatus req) := by
  cases hnext : s.pool.getNextLoop with
  | mk loop pool =>
    have hnext' : (texts s).pool.getNextLoop = (loop, pool) := hnext
    rw [TextReporter.getReportStatus, ReporterServer.getReportStatus, hnext, hnext']
    cases loop with
    | none => rfl
    | some loop =>
      dsimp only
      rw [texts_update, List.map_append, List.map_singleton, statements_eq]
      rfl

/-- **A step** with texts is a step with upserts. -/
theorem texts_step (mysql : CallMysql) {s : ReporterServer} {e : StatementEvent} (he : s.Holds e) :
    (texts s).step mysql e =
      (s.stepOrFail e).map fun r => (r.1.map Prod.fst, texts r.2) := by
  have htasks : ∀ loop, (texts s).tasks loop = (s.tasks loop).map (List.map statement) :=
    fun _ => rfl
  match e with
  | .step (.handle req) =>
    change Except.ok (none, (texts s).getReportStatus req) = Except.ok (none, texts _)
    rw [texts_getReportStatus]
  | .step (.run loop) =>
    unfold TextReporter.step ReporterServer.stepOrFail ReporterServer.step
    dsimp only
    rw [htasks]
    match hloop : s.tasks loop with
    | [] => rfl
    | [] :: tasks =>
      change Except.ok _ = Except.ok (none, texts _)
      rw [texts_update]
      rfl
    | (p :: ps) :: tasks =>
      obtain ⟨hkey, hstatus⟩ := he p ps tasks hloop
      change Except.ok _ = Except.ok (some loop, texts _)
      rw [texts_update, query_statement mysql hkey hstatus]
      rfl
  | .fail loop =>
    unfold TextReporter.step ReporterServer.stepOrFail
    dsimp only
    rw [htasks]
    match hloop : s.tasks loop with
    | [] => rfl
    | [] :: tasks => rfl
    | (p :: ps) :: tasks =>
      change Except.ok _ = Except.ok (none, texts _)
      rw [texts_update]
      rfl

/-- **Statements do what the upserts do**, in every run of the reporter in which those that are
carried out have values that the columns can hold. -/
theorem run_statements (mysql : CallMysql) (threadNum : ℤ) (table : ServerCallStatus)
    {es : List StatementEvent}
    (hes : Along ReporterServer.stepOrFail ReporterServer.Holds (start threadNum table) es) :
    run (TextReporter.step mysql) (TextReporter.start threadNum table) es =
      (run ReporterServer.stepOrFail (start threadNum table) es).map fun r =>
        (r.1.map (Option.map Prod.fst), texts r.2) := by
  have hrun : ∀ (es : List StatementEvent) (s : ReporterServer),
      Along ReporterServer.stepOrFail ReporterServer.Holds s es →
      run (TextReporter.step mysql) (texts s) es =
        (run ReporterServer.stepOrFail s es).map fun r =>
          (r.1.map (Option.map Prod.fst), texts r.2) := by
    intro es
    induction es with
    | nil => exact fun s _ => rfl
    | cons e es ih =>
      intro s hes
      have hstep := texts_step mysql hes.1
      cases h : s.stepOrFail e with
      | error t =>
        rw [h] at hstep
        rw [run_cons_error h, run_cons_error hstep]
        rfl
      | ok r =>
        obtain ⟨o, s'⟩ := r
        rw [h] at hstep
        rw [run_cons_ok h, run_cons_ok hstep, ih s' (hes.2 o s' h)]
        cases run ReporterServer.stepOrFail s' es with
        | error t => rfl
        | ok r => rfl
  exact hrun es (start threadNum table) hes

/-- A statement read off its text, and carried out if the columns can hold what is in it. -/
def readInsert (sql : List UInt8) (table : ServerCallStatus) : ServerCallStatus :=
  match scan ((insert ⟨0, 0, 0, 0, 0⟩ ⟨0, 0, 0, 0⟩ ⟨0, 0, 0, 0⟩).map Piece.shape) sql with
  | some [modid, cmdid, ip, port, caller, succ, err, ts, overload, succ', err', ts', overload'] =>
    let k : CallKey := ⟨.ofInt modid, .ofInt cmdid, .ofNat ip.toNat, .ofNat port.toNat,
      .ofNat caller.toNat⟩
    let v : CallStatus := ⟨.ofNat succ.toNat, .ofNat err.toNat, .ofNat ts.toNat, .ofInt overload⟩
    let v' : CallStatus :=
      ⟨.ofNat succ'.toNat, .ofNat err'.toNat, .ofNat ts'.toNat, .ofInt overload'⟩
    if k.Fits ∧ v.Fits ∧ v'.Fits then
      Function.update table k (some (if table k = none then v else v'))
    else table
  | _ => table

/-- A database that reads the statements. -/
def readingMysql : CallMysql where
  query := readInsert
  insert_duplicate k v v' table hk hv hv' := by
    have hscan : scan ((insert ⟨0, 0, 0, 0, 0⟩ ⟨0, 0, 0, 0⟩ ⟨0, 0, 0, 0⟩).map Piece.shape)
        (print (insert k v v')) =
          some [k.modid.toInt, k.cmdid.toInt, k.ip.toNat, k.port.toNat, k.caller.toNat,
            v.succCnt.toNat, v.errCnt.toNat, v.ts.toNat, v.overload.toInt, v'.succCnt.toNat,
            v'.errCnt.toNat, v'.ts.toNat, v'.overload.toInt] :=
      scan_print (rfl : Shape.separated ((insert k v v').map _) = true)
    rw [readInsert, hscan]
    simp only [Int32.ofInt_toInt, Int.toNat_natCast, UInt32.ofNat_toNat]
    exact if_pos ⟨hk, hv, hv'⟩

/-- A report of three calls, one from a place whose address is too large for its column, and the
loop that gets it. -/
def reportedOnce : List StatementEvent :=
  [.step (.handle ⟨1, 2, 3, [⟨5, 80, 3, 0, false⟩, ⟨-5, 80, 9, 9, true⟩, ⟨5, 80, 4, 1, true⟩], 7⟩),
    .step (.run 0), .fail 0, .step (.run 0)]

theorem run_statements_once : ∃ outs s,
    run (TextReporter.step readingMysql) (TextReporter.start 2 fun _ => none) reportedOnce =
      .ok (outs, s) ∧
    s.table ⟨1, 2, 5, 80, 3⟩ = some ⟨4, 1, 7, 1⟩ ∧ s.table ⟨1, 2, 4294967291, 80, 3⟩ = none := by
  have hes : Along ReporterServer.stepOrFail ReporterServer.Holds (start 2 fun _ => none)
      reportedOnce := by
    refine along_cons trivial <| along_cons ?_ <| along_cons trivial <| along_cons ?_ <|
      along_nil _ _
    · rintro p ps tasks ⟨⟩
      decide
    · rintro p ps tasks ⟨⟩
      decide
  have hrun : run ReporterServer.stepOrFail (start 2 fun _ => none) reportedOnce = .ok (_, _) := rfl
  have h := run_statements readingMysql 2 (fun _ => none) hes
  rw [hrun] at h
  exact ⟨_, _, h, by decide, by decide⟩

end Lars.Reporter
