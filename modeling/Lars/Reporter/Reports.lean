import Lars.Agent.Pull
import Lars.Proto.Messages
import Lars.Reactor.Link
import Lars.Reporter.StoreReport

/-!
# Reports on their way to the table

Clients of the reporter (`lars_reporter/test/report_client.cc`) send reports on their connections,
as bytes that the generated code writes. The server's thread calls `get_report_status` for one
message after the other, on whichever connection it comes. The handler parses the report and gives
it to a storing thread, and the storing threads run meanwhile.

* `reportsOf_isPrefix`, `reportsOf_eq`: of each connection the first reports are handled, each once
  and in order, and all of them when nothing is under way.
* `reports_stored`: a row is never but one that was reported. When nothing is under way and all
  tasks have run, no call reported is without its row; with one storing thread, a call that one
  client reports has that client's last row.
-/

namespace Lars.Reporter

open Machine Reactor Framing WireFormat

variable (R : ProtobufRuntime)

/-- The message with a report. -/
def report (req : ReportStatusRequest) : Dispatch :=
  ⟨MessageId.reportStatusRequest.toInt, (ReportStatusRequest.code R).serialize req⟩

/-- The report that `get_report_status` takes from a message. It does not look at what
`ParseFromArray` returns. -/
def received (m : Dispatch) : ReportStatusRequest := ((ReportStatusRequest.code R).parse m.body).2

/-- The handlers registered by the constructor of `reporter_server`. What `get_report_status` does
is `ReporterServer.getReportStatus`; it sends nothing. -/
def reporterServer : HandlerMap (Dispatch → List UserAct) :=
  process [⟨(), MessageId.reportStatusRequest.toInt, fun _ => []⟩]

variable {R}

theorem received_report {req : ReportStatusRequest} (h : (report R req).Fits) :
    received R (report R req) = req := by
  have hmax : messageMaxSize - messageHeaderSize ≤ maxSize := by decide
  exact congrArg Prod.snd (Message.parse_serialize (h.trans hmax))

theorem map_received {reqs : List ReportStatusRequest} (h : ∀ m ∈ reqs.map (report R), m.Fits) :
    (reqs.map (report R)).map (received R) = reqs := by
  rw [List.map_map]
  refine (List.map_congr_left fun req hreq => ?_).trans reqs.map_id
  exact received_report (h _ (List.mem_map_of_mem hreq))

/-! ## What is handled -/

section Handled

variable {ι : Type*} [DecidableEq ι]

/-- The reports handled that came on connection `i`. -/
def reportsOf (i : ι) (handled : List (ι × ReportStatusRequest)) : List ReportStatusRequest :=
  (handled.filter fun p => p.1 = i).map Prod.snd

variable (R) in
/-- In a run of the reporter the reports handled are those received on the connections, those of
each connection in their order. -/
structure Handles (links : ι → Link) (handled : List (ι × ReportStatusRequest))
    (es : List StoreEvent) : Prop where
  request : es.filterMap StoreEvent.request = handled.map Prod.snd
  got : ∀ i, reportsOf i handled = (links i).server.got.map (received R)

theorem mem_reportsOf {i : ι} {handled : List (ι × ReportStatusRequest)}
    {req : ReportStatusRequest} : req ∈ reportsOf i handled ↔ (i, req) ∈ handled := by
  simp [reportsOf]

theorem reportsOf_cons (i j : ι) (req : ReportStatusRequest)
    (handled : List (ι × ReportStatusRequest)) :
    reportsOf i ((j, req) :: handled) =
      if j = i then req :: reportsOf i handled else reportsOf i handled := by
  by_cases h : j = i
  · simp [reportsOf, h]
  · simp [reportsOf, h]

/-- The last write to a key that one client alone reports is that client's. -/
theorem lastWrite_reportsOf {i : ι} {k : CallKey} {handled : List (ι × ReportStatusRequest)}
    (h : ∀ j, j ≠ i → ∀ v, (k, v) ∉ (reportsOf j handled).flatMap store) :
    lastWrite k ((handled.map Prod.snd).flatMap store) =
      lastWrite k ((reportsOf i handled).flatMap store) := by
  induction handled with
  | nil => rfl
  | cons p handled ih =>
    obtain ⟨j, req⟩ := p
    have htail : ∀ j', j' ≠ i → ∀ v, (k, v) ∉ (reportsOf j' handled).flatMap store := by
      intro j' hj' v hv
      refine h j' hj' v ?_
      rw [reportsOf_cons]
      split_ifs
      · exact List.mem_append_right _ hv
      · exact hv
    rw [List.map_cons, List.flatMap_cons, lastWrite_append, ih htail, reportsOf_cons]
    split_ifs with hj
    · rw [List.flatMap_cons, lastWrite_append]
    · have hnone : lastWrite k (store req) = none := by
        rw [lastWrite_eq_none_iff]
        rintro ⟨k', v⟩ hp rfl
        refine h j hj v (List.mem_flatMap_of_mem (mem_reportsOf.mpr List.mem_cons_self) hp)
      rw [hnone, Option.or_none]

variable {links : ι → Link} {handled : List (ι × ReportStatusRequest)} {es : List StoreEvent}
  {reqs : ι → List ReportStatusRequest}

/-- **What is handled**: of the reports that a client has sent the first ones, each once and in
order. -/
theorem reportsOf_isPrefix (hlinks : ∀ i, (links i).Reached) (hes : Handles R links handled es)
    (hreqs : ∀ i, (links i).client.sent = (reqs i).map (report R)) (i : ι) :
    reportsOf i handled <+: reqs i := by
  have hflow := (hlinks i).right.toServer
  have hfits := hflow.fits
  have hpre := hflow.got_isPrefix.map (received R)
  rw [hreqs] at hfits hpre
  rwa [map_received hfits, ← hes.got] at hpre

/-- All of them when nothing is under way. -/
theorem reportsOf_eq (hlinks : ∀ i, (links i).Reached) (hes : Handles R links handled es)
    (hreqs : ∀ i, (links i).client.sent = (reqs i).map (report R)) {i : ι}
    (hidle : (links i).Idle) : reportsOf i handled = reqs i := by
  have hflow := (hlinks i).right.toServer
  have hfits := hflow.fits
  rw [hreqs] at hfits
  rw [hes.got, (hflow.got_eq_sent hidle.client.1 hidle.client.2).1, hreqs, map_received hfits]

end Handled

/-! ## What the rows hold -/

/-- What goes to a loop has been reported. -/
theorem assigned_subset {n loop i : ℕ} {reqs : List ReportStatusRequest}
    {p : CallKey × CallStatus} (hp : p ∈ assigned n loop i reqs) : p ∈ reqs.flatMap store := by
  induction reqs generalizing i with
  | nil => exact hp
  | cons req reqs ih =>
    rw [assigned, List.mem_append] at hp
    rw [List.flatMap_cons, List.mem_append]
    refine hp.imp (fun hp => ?_) ih
    split_ifs at hp
    · exact hp
    · exact absurd hp List.not_mem_nil

namespace ReporterServer

variable {threadNum : ℤ} {table : ServerCallStatus} {es : List StoreEvent}
  {outs : List (Option (ℕ × CallKey × CallStatus))} {s : ReporterServer}

/-- The upserts made are of requests handled. -/
theorem made_subset (hpos : 0 < threadNum)
    (hrun : run step (start threadNum table) es = .ok (outs, s)) {loop : ℕ}
    {p : CallKey × CallStatus} (hp : (loop, p) ∈ made outs) :
    p ∈ (es.filterMap StoreEvent.request).flatMap store := by
  obtain ⟨-, hparts⟩ := pending_of_run (turn_start hpos table) hrun
  have hassigned := hparts loop
  rw [show (start threadNum table).pending loop = [] from rfl, List.nil_append] at hassigned
  refine assigned_subset (n := threadNum.toNat) (i := 0) (?_ : p ∈ assigned _ loop _ _)
  rw [hassigned]
  exact List.mem_append_left _ (mem_part_iff.mpr hp)

/-- A row that is not as it was at the start is that of a result reported. -/
theorem table_eq_or (hpos : 0 < threadNum)
    (hrun : run step (start threadNum table) es = .ok (outs, s)) (k : CallKey) :
    s.table k = table k ∨
      ∃ v, s.table k = some v ∧ (k, v) ∈ (es.filterMap StoreEvent.request).flatMap store := by
  have htable := (pending_of_run (turn_start hpos table) hrun).1
  have happly := writeAll_apply table ((made outs).map Prod.snd) k
  rw [show (start threadNum table).table = table from rfl] at htable
  rw [htable, happly]
  cases hlast : lastWrite k ((made outs).map Prod.snd) with
  | none => exact .inl (Option.none_or ..)
  | some v =>
    obtain ⟨⟨loop, p⟩, hp, heq⟩ := List.mem_map.mp (mem_of_lastWrite hlast)
    have heq : p = (k, v) := heq
    exact .inr ⟨v, Option.some_or .., heq ▸ made_subset hpos hrun hp⟩

/-- Once all tasks have run, every result reported has been upserted. -/
theorem exists_table_of_drained (hpos : 0 < threadNum)
    (hrun : run step (start threadNum table) es = .ok (outs, s)) (hdrained : s.Drained)
    {k : CallKey} {v : CallStatus}
    (hv : (k, v) ∈ (es.filterMap StoreEvent.request).flatMap store) :
    ∃ v', s.table k = some v' ∧ (k, v') ∈ (es.filterMap StoreEvent.request).flatMap store := by
  obtain ⟨htable, hparts⟩ := pending_of_run (turn_start hpos table) hrun
  obtain ⟨loop, hmem⟩ := exists_mem_assigned (n := threadNum.toNat) 0 hv
  have hloop := hparts loop
  have hnil : s.pending loop = [] := by rw [pending, hdrained loop, List.flatten_nil]
  rw [hnil, List.append_nil] at hloop
  have hmade : (loop, k, v) ∈ made outs := by
    rw [← mem_part_iff, ← hloop]
    exact hmem
  have hsome : lastWrite k ((made outs).map Prod.snd) ≠ none := fun hnone =>
    lastWrite_eq_none_iff.mp hnone (k, v) (List.mem_map_of_mem hmade) rfl
  obtain ⟨v', hv'⟩ := Option.ne_none_iff_exists'.mp hsome
  obtain ⟨⟨loop', p⟩, hp, heq⟩ := List.mem_map.mp (mem_of_lastWrite hv')
  have heq : p = (k, v') := heq
  refine ⟨v', ?_, heq ▸ made_subset hpos hrun hp⟩
  rw [htable, writeAll_apply, hv', Option.some_or]

/-- With one thread, once all tasks have run the rows hold the last results handled. -/
theorem table_eq_of_one (hrun : run step (start 1 table) es = .ok (outs, s))
    (hdrained : s.Drained) (k : CallKey) :
    s.table k =
      (lastWrite k ((es.filterMap StoreEvent.request).flatMap store)).or (table k) := by
  cases hlast : lastWrite k ((es.filterMap StoreEvent.request).flatMap store) with
  | none =>
    rw [Option.none_or]
    refine (table_eq_or Int.one_pos hrun k).resolve_right ?_
    rintro ⟨v, -, hv⟩
    exact lastWrite_eq_none_iff.mp hlast (k, v) hv rfl
  | some v =>
    rw [Option.some_or]
    exact stored_of_one _ table es outs s hrun rfl hdrained k v hlast

end ReporterServer

/-! ## From the clients to the rows -/

section Stored

variable {ι : Type*} [DecidableEq ι]

/-- A client has sent a result of the call `k`, with the status `v`. -/
def Reported (reqs : ι → List ReportStatusRequest) (k : CallKey) (v : CallStatus) : Prop :=
  ∃ i, (k, v) ∈ (reqs i).flatMap store

theorem mem_flatMap_handled {handled : List (ι × ReportStatusRequest)} {p : CallKey × CallStatus} :
    p ∈ (handled.map Prod.snd).flatMap store ↔ ∃ i, p ∈ (reportsOf i handled).flatMap store := by
  simp only [List.mem_flatMap, List.mem_map, mem_reportsOf]
  constructor
  · rintro ⟨-, ⟨⟨i, req⟩, hmem, rfl⟩, hp⟩
    exact ⟨i, req, hmem, hp⟩
  · rintro ⟨i, req, hmem, hp⟩
    exact ⟨req, ⟨(i, req), hmem, rfl⟩, hp⟩

variable {links : ι → Link} {handled : List (ι × ReportStatusRequest)} {es : List StoreEvent}
  {reqs : ι → List ReportStatusRequest} {threadNum : ℤ} {table : ServerCallStatus}
  {outs : List (Option (ℕ × CallKey × CallStatus))} {s : ReporterServer}

/-- **Reports are stored.** Clients send reports over their connections, in whatever order the calls
at the ends, the handlers and the storing threads come. The reports handled are, for each client,
the first it has sent. A row that has changed has a status that was reported for its call. When
nothing is under way and all tasks have run, all reports have been handled, and every call reported
has a row; with one storing thread, a call that one client reports has the last status of that
client. -/
theorem reports_stored (hlinks : ∀ i, (links i).Reached)
    (hreqs : ∀ i, (links i).client.sent = (reqs i).map (report R)) (hpos : 0 < threadNum)
    (hrun : run ReporterServer.step (start threadNum table) es = .ok (outs, s))
    (hes : Handles R links handled es) :
    (∀ i, reportsOf i handled <+: reqs i) ∧
    (∀ k, s.table k = table k ∨ ∃ v, s.table k = some v ∧ Reported reqs k v) ∧
    ((∀ i, (links i).Idle) → s.Drained →
      (∀ i, reportsOf i handled = reqs i) ∧
      (∀ k v, Reported reqs k v → ∃ v', s.table k = some v' ∧ Reported reqs k v') ∧
      (threadNum = 1 → ∀ i k, (∀ j, j ≠ i → ∀ v, (k, v) ∉ (reqs j).flatMap store) →
        s.table k = (lastWrite k ((reqs i).flatMap store)).or (table k))) := by
  have hpre := reportsOf_isPrefix hlinks hes hreqs
  have hreported : ∀ {k v}, (k, v) ∈ (es.filterMap StoreEvent.request).flatMap store →
      Reported reqs k v := by
    intro k v hv
    rw [hes.request] at hv
    obtain ⟨i, hi⟩ := mem_flatMap_handled.mp hv
    obtain ⟨req, hreq, hp⟩ := List.mem_flatMap.mp hi
    exact ⟨i, List.mem_flatMap_of_mem ((hpre i).subset hreq) hp⟩
  refine ⟨hpre, fun k => ?_, fun hidle hdrained => ?_⟩
  · refine (ReporterServer.table_eq_or hpos hrun k).imp_right ?_
    rintro ⟨v, hrow, hv⟩
    exact ⟨v, hrow, hreported hv⟩
  · have hall : ∀ i, reportsOf i handled = reqs i := fun i =>
      reportsOf_eq hlinks hes hreqs (hidle i)
    refine ⟨hall, fun k v hv => ?_, fun hone i k hothers => ?_⟩
    · obtain ⟨i, hi⟩ := hv
      rw [← hall i] at hi
      obtain ⟨v', hrow, hv'⟩ := ReporterServer.exists_table_of_drained hpos hrun hdrained
        (hes.request ▸ mem_flatMap_handled.mpr ⟨i, hi⟩)
      exact ⟨v', hrow, hreported hv'⟩
    · subst hone
      rw [ReporterServer.table_eq_of_one hrun hdrained k, hes.request,
        lastWrite_reportsOf fun j hj v => hall j ▸ hothers j hj v, hall i]

/-- A report of one call, on one of two connections. -/
def oneReport : ReportStatusRequest := ⟨1, 2, 123, [⟨7, 80, 100, 3, true⟩], 9⟩

/-- The report is sent and arrives. -/
def reportEvents : List LinkEvent :=
  [.client ⟨.send (report base128 oneReport).id (report base128 oneReport).body,
      .ofCounts fun _ => 2, Link.quiet⟩,
    .client ⟨.handleWrite [.accepted 99], .ofCounts fun _ => 2, Link.quiet⟩,
    .server ⟨.handleRead 0 99 (Agent.handlersOf reporterServer), .ofCounts fun _ => 2, true⟩]

theorem fair_report : Along Link.step Link.Fair Link.fresh reportEvents := by
  have hwrite : WriteAnswer.failed ∉ [WriteAnswer.accepted 99] := by decide
  refine along_cons ⟨by decide, output_eq_some.mp (by decide)⟩ <| along_cons hwrite <|
    along_cons ⟨by decide, ?_⟩ <| along_nil _ _
  exact ⟨.of_eval (by decide) (by decide) (by decide), .of_eval 3 (by decide), by decide,
    by decide⟩

/-- A connection with the report, and one without. -/
def twoLinks (l : Link) : Bool → Link
  | true => l
  | false => Link.fresh

/-- What the two clients report. -/
def twoClients : Bool → List ReportStatusRequest
  | true => [oneReport]
  | false => []

theorem reports_stored_once : ∃ outs s,
    run ReporterServer.step (start 1 fun _ => none) [.handle oneReport, .run 0, .run 0] =
      .ok (outs, s) ∧
    s.table ⟨1, 2, 7, 80, 123⟩ = some ⟨100, 3, 9, 1⟩ := by
  obtain ⟨outs, l, hrun, -⟩ := (Link.right_connect Link.opens_new Link.connect_new).run fair_report
  have hend : ((run Link.step Link.fresh reportEvents).map fun r =>
      (r.2.client.sent, r.2.server.got, (ReactorBuf.length r.2.server.conn.obuf,
        r.2.server.outgoing), ReactorBuf.length r.2.client.conn.obuf,
        r.2.client.outgoing)).toOption =
      some ([report base128 oneReport], [report base128 oneReport], (0, []), 0, []) := by decide
  rw [hrun] at hend
  obtain ⟨hsent, hend⟩ := Prod.mk.inj (Option.some.inj hend)
  obtain ⟨hgot, hend⟩ := Prod.mk.inj hend
  obtain ⟨hserver, hclient⟩ := Prod.mk.inj hend
  have hlinks : ∀ b, (twoLinks l b).Reached
    | true => ⟨[], Link.quiet, _, _, _, reportEvents, outs, Link.opens_new, Link.connect_new,
        fair_report, hrun⟩
    | false => ⟨[], Link.quiet, _, _, _, [], [], Link.opens_new, Link.connect_new,
        along_nil _ _, rfl⟩
  have hreqs : ∀ b, (twoLinks l b).client.sent = (twoClients b).map (report base128)
    | true => hsent
    | false => rfl
  have hidle : ∀ b, (twoLinks l b).Idle
    | true => ⟨Prod.mk.inj hserver, Prod.mk.inj hclient⟩
    | false => ⟨⟨rfl, rfl⟩, rfl, rfl⟩
  have hes : Handles base128 (twoLinks l) [(true, oneReport)]
      [.handle oneReport, .run 0, .run 0] := by
    refine ⟨rfl, fun b => ?_⟩
    cases b with
    | true =>
      change _ = l.server.got.map _
      rw [hgot]
      decide
    | false => rfl
  obtain ⟨outs', s, hrun', hdrained⟩ : ∃ outs s,
      run ReporterServer.step (start 1 fun _ => none) [.handle oneReport, .run 0, .run 0] =
        .ok (outs, s) ∧ s.Drained := by
    refine ⟨_, _, rfl, fun loop => ?_⟩
    cases loop with
    | zero => rfl
    | succ loop => rfl
  refine ⟨outs', s, hrun', ?_⟩
  have hrow := ((reports_stored hlinks hreqs Int.one_pos hrun' hes).2.2 hidle hdrained).2.2 rfl
    true ⟨1, 2, 7, 80, 123⟩ ?_
  · exact hrow.trans (by decide)
  · intro b hb v hv
    cases b with
    | true => exact hb rfl
    | false => exact List.not_mem_nil hv

end Stored

end Lars.Reporter
