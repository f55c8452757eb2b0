import Lars.Dns.CheckRouteChanges

/-!
# Changes announced

A change deleted from `RouteChange` should have been handed to the subscribers. `load_changes` and
`remove_changes` select by the version, in two queries: a change that comes in between, with a
version that is not new, is deleted unread; and `check_route_changes` does not ask whether
`load_changes` has read anything before it deletes.

* `deleted_announced`: a pass of the loop that `Announces` deletes only what has been announced;
* `allAnnounced_of_run`: so for runs.
-/

namespace Lars.Dns

open Machine

namespace Server

/-- The state in which `load_changes` reads, in a pass that finds a new version. -/
def selecting (it : Iteration) (s : Server) : Server :=
  (reload it (checkVersion it s).2).commits it.beforeChanges

/-- A pass that deletes nothing unannounced: if it finds a new version and deletes, then no change
up to the version comes in between its two queries of `RouteChange`, and the first of them succeeds
or finds nothing that has not been announced before. -/
def Announces (s : Server) (it : Iteration) : Prop :=
  (checkVersion it s).1 = 1 → it.deleteAnswer = .ok →
    (∀ t ∈ it.beforeDelete, ∀ c ∈ t.changes, (selecting it s).route.version < c.2.2.toNat) ∧
    (it.changesAnswer ≠ .ok → ∀ row ∈ (selecting it s).db.routeChange,
      (selecting it s).route.covers row = true → row ∈ s.announced)

@[simp] theorem announced_checkVersion (it : Iteration) (s : Server) :
    (checkVersion it s).2.announced = s.announced := announced_commits s it.beforeVersion

@[simp] theorem announced_reload (it : Iteration) (s : Server) :
    (reload it s).announced = s.announced := by
  unfold reload
  dsimp only
  split_ifs <;> exact announced_commits s it.beforeData

@[simp] theorem announced_announce (it : Iteration) (s : Server) :
    (announce it s).2.announced = s.announced ++ (announce it s).1 :=
  congrArg (· ++ (announce it s).1) (announced_commits s it.beforeChanges)

@[simp] theorem announced_remove (it : Iteration) (s : Server) :
    (remove it s).2.announced = s.announced := announced_commits s it.beforeDelete

/-- What a pass announces is what it has read. -/
theorem announced_check (it : Iteration) (s : Server) :
    (check it s).2.announced = s.announced ++ (check it s).1.read := by
  by_cases hnew : (checkVersion it s).1 = 1
  · rw [check_of_new hnew]
    simp
  · rcases check_of_not_new hnew with h | h
    · rw [h]
      simp
    · rw [h]
      simp

/-- The rows read have their keys in the list handed to `send_task`. -/
theorem hands_of_read {it : Iteration} {s : Server} {row : ChangeRow}
    (h : row ∈ (check it s).1.read) : (check it s).1.Hands row := by
  refine ⟨h, ?_⟩
  by_cases hnew : (checkVersion it s).1 = 1
  · rw [check_of_new hnew] at h ⊢
    exact ⟨_, rfl, List.mem_map_of_mem h⟩
  · rcases check_of_not_new hnew with hc | hc <;> simp [hc] at h

/-- What `remove_changes` deletes has been found by `load_changes`, or was inserted in between. -/
theorem mem_remove {it : Iteration} {s : Server} {row : ChangeRow}
    (h : row ∈ (remove it s).1) :
    it.deleteAnswer = .ok ∧ s.route.covers row = true ∧
      (row ∈ s.db.routeChange ∨ ∃ t ∈ it.beforeDelete, ∃ c ∈ t.changes, row.version = c.2.2) := by
  simp only [remove, Route.removeChanges, route_commits, Bool.false_or] at h
  split at h
  · rename_i hanswer
    obtain ⟨hrow, hcovers⟩ := List.mem_filter.mp h
    exact ⟨hanswer, hcovers, mem_routeChange_commits hrow⟩
  · simp at h

/-- **A pass of the loop** that meets the condition deletes only what has been announced, then or
before. -/
theorem deleted_announced {it : Iteration} {s : Server} (hs : Announces s it) :
    ∀ row ∈ (check it s).1.deleted, row ∈ s.announced ++ (check it s).1.read := by
  intro row hrow
  by_cases hnew : (checkVersion it s).1 = 1
  · rw [check_of_new hnew] at hrow ⊢
    obtain ⟨hdelete, hcovers, hmem⟩ := mem_remove hrow
    obtain ⟨hlate, hfail⟩ := hs hnew hdelete
    have hcovers : (selecting it s).route.covers row = true := hcovers
    rcases hmem with hmem | ⟨t, ht, c, hc, hversion⟩
    · have hmem : row ∈ (selecting it s).db.routeChange := hmem
      by_cases hanswer : it.changesAnswer = .ok
      · refine List.mem_append_right _ ?_
        change row ∈ Route.loadChanges it.changesAnswer (selecting it s).db (selecting it s).route
        rw [hanswer]
        exact List.mem_filter.mpr ⟨hmem, hcovers⟩
      · exact List.mem_append_left _ (hfail hanswer row hmem hcovers)
    · have hold : ((row.version.toNat : ℤ)) ≤ (selecting it s).route.version :=
        of_decide_eq_true hcovers
      rw [hversion] at hold
      exact absurd hold (not_le.mpr (hlate t ht c hc))
  · rcases check_of_not_new hnew with h | h <;> simp [h] at hrow

/-- In a run, what is deleted had been announced before the run or is in it. -/
theorem mem_deleted_run {its : List Iteration} {s s' : Server} {outs : List Checked}
    (hits : Along step Announces s its) (h : run step s its = .ok (outs, s'))
    {before after : List Checked} {o : Checked} (houts : outs = before ++ o :: after)
    {row : ChangeRow} (hrow : row ∈ o.deleted) :
    row ∈ s.announced ∨ ∃ o' ∈ before ++ [o], o'.Hands row := by
  induction its generalizing s outs before with
  | nil =>
    cases h
    simp at houts
  | cons it its ih =>
    obtain ⟨o₁, s₁, os, hstep, hrun, rfl⟩ := run_cons_eq_ok.mp h
    have hcheck : check it s = (o₁, s₁) := Except.ok.inj hstep
    have hhands : ∀ row ∈ o₁.read, o₁.Hands row := by
      intro row hr
      have hout : (check it s).1 = o₁ := by rw [hcheck]
      rw [← hout] at hr ⊢
      exact hands_of_read hr
    cases before with
    | nil =>
      obtain ⟨rfl, -⟩ : o₁ = o ∧ os = after := by simpa using houts
      have hmem := deleted_announced hits.1
      rw [hcheck] at hmem
      exact (List.mem_append.mp (hmem row hrow)).imp_right fun hr => ⟨o₁, by simp, hhands row hr⟩
    | cons b before =>
      obtain ⟨rfl, hos⟩ : o₁ = b ∧ os = before ++ o :: after := by simpa using houts
      have hs₁ : s₁.announced = s.announced ++ o₁.read := by
        have := announced_check it s
        rwa [hcheck] at this
      rcases ih (hits.2 o₁ s₁ hstep) hrun hos with hr | ⟨o', ho', hr⟩
      · rw [hs₁] at hr
        exact (List.mem_append.mp hr).imp_right fun hr => ⟨o₁, by simp, hhands row hr⟩
      · exact Or.inr ⟨o', List.mem_cons_of_mem _ ho', hr⟩

/-- The rows deleted have been read into a list handed over, in the same pass or an earlier one. -/
def AllAnnounced (outs : List Checked) : Prop :=
  ∀ before o after, outs = before ++ o :: after →
    ∀ row ∈ o.deleted, ∃ o' ∈ before ++ [o], o'.Hands row

/-- **No change is dropped unannounced** in a run of passes that meet the condition. -/
theorem allAnnounced_of_run {s : Server} {its : List Iteration} (hs : s.announced = [])
    (hits : Along step Announces s its) :
    ∃ outs s', run step s its = .ok (outs, s') ∧ AllAnnounced outs := by
  obtain ⟨outs, s', h⟩ := exists_run (fun s it => ⟨_, _, rfl⟩) s its
  refine ⟨outs, s', h, fun before o after houts row hrow => ?_⟩
  refine (mem_deleted_run hits h houts hrow).resolve_left ?_
  rw [hs]
  exact List.not_mem_nil

section Example

/-- A database with a version and one change. -/
def oneChange : Server where
  db := {
    tables := ⟨[], some 1⟩
    routeChange := [⟨0, 1, 1, 1⟩]
    autoIncrement := 1
    id_lt := by decide
    nodup := by decide }
  route := .new
  lastLoadTime := 0
  past := []
  announced := []

/-- A pass whose `DELETE` fails, and one with a new version whose `load_changes` fails. -/
theorem allAnnounced_of_run_retry :
    ∃ outs s', run step oneChange
      [{ currentTime := 1, deleteAnswer := .queryError },
        { currentTime := 2, beforeVersion := [{ routeVersion := some 2 }],
          changesAnswer := .queryError }] = .ok (outs, s') ∧ AllAnnounced outs := by
  refine allAnnounced_of_run rfl (along_cons ?_ (along_cons ?_ (along_nil _ _)))
  · intro _ h
    cases h
  · intro _ _
    refine ⟨?_, ?_⟩
    · intro t ht
      cases ht
    · intro _ row hrow _
      exact hrow

/-- A change that comes in between `load_changes` and `remove_changes` is dropped, all queries
succeeding; and so are the changes that `load_changes` fails to read, nothing coming in between. -/
theorem not_allAnnounced_of_run :
    (¬ ∀ (s : Server) (its : List Iteration), s.announced = [] →
      (∀ it ∈ its, it.versionAnswer = .ok ∧ it.dataAnswer = .ok ∧ it.changesAnswer = .ok ∧
        it.deleteAnswer = .ok) →
      ∃ outs s', run step s its = .ok (outs, s') ∧ AllAnnounced outs) ∧
    ¬ ∀ (s : Server) (its : List Iteration), s.announced = [] →
      (∀ it ∈ its, it.beforeDelete = []) →
      ∃ outs s', run step s its = .ok (outs, s') ∧ AllAnnounced outs := by
  refine ⟨fun hall => ?_, fun hall => ?_⟩
  · obtain ⟨outs, s', hrun, h⟩ := hall oneChange
      [{ currentTime := 1, beforeDelete := [{ changes := [(2, 1, 1)] }] }] rfl (by simp)
    obtain rfl : outs = [⟨some [0x100000001], [⟨0, 1, 1, 1⟩], [⟨0, 1, 1, 1⟩, ⟨1, 2, 1, 1⟩]⟩] := by
      cases hrun
      rfl
    simpa [Checked.Hands] using h [] _ [] rfl ⟨1, 2, 1, 1⟩ (by decide)
  · obtain ⟨outs, s', hrun, h⟩ := hall oneChange
      [{ currentTime := 1, changesAnswer := .queryError }] rfl (by simp)
    obtain rfl : outs = [⟨some [], [], [⟨0, 1, 1, 1⟩]⟩] := by
      cases hrun
      rfl
    simpa [Checked.Hands] using h [] _ [] rfl ⟨0, 1, 1, 1⟩ (by decide)

end Example

end Server

end Lars.Dns
