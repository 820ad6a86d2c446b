import SqliteBroker.WorkerLog
import SqliteBroker.SmallSqlite

/-!
When the worker panics. The event line of a statement is cut at byte 120, after the
statement has run; the cut fails inside a character of several bytes.
-/
namespace SqliteBroker.Panics

open Utf8 Messages Engine Execution BrokerWorker Turnstile WorkerLog

variable {S : Sqlite}

/-- The event line needs no cut, or byte 120 starts a character. -/
def Fits (sql : String) : Prop :=
  byteLen (oneLine sql) ≤ 120 ∨ IsBoundary (oneLine sql) 120

theorem sqlBrief_isSome_iff (sql : String) : (sqlBrief sql).isSome = true ↔ Fits sql := by
  unfold sqlBrief Fits
  by_cases hlen : byteLen (oneLine sql) > 120
  · have hlong : ¬ byteLen (oneLine sql) ≤ 120 := Nat.not_le.mpr hlen
    simp only [hlen, if_true, Option.isSome_map, hlong, false_or]
    exact sliceTo_isSome_iff _ _
  · simp [hlen, Nat.not_lt.mp hlen]

theorem sqlBrief_of_fits {sql : String} (h : Fits sql) : ∃ brief, sqlBrief sql = some brief :=
  Option.isSome_iff_exists.mp ((sqlBrief_isSome_iff sql).mpr h)

theorem sqlBrief_of_not_fits {sql : String} (h : ¬ Fits sql) : sqlBrief sql = none := by
  rw [← sqlBrief_isSome_iff, Option.not_isSome_iff_eq_none] at h
  exact h

/-- A dispatch returns exactly when the event line can be cut. -/
theorem dispatch_ok_iff (w : Worker S) (p : Pending) (hreq : p.req.isClose = false) :
    (∃ w', w.dispatch p = .ok w') ↔ Fits (sqlOf p.req) := by
  constructor
  · rintro ⟨w', hw'⟩
    by_contra hfits
    have hbrief := sqlBrief_of_not_fits hfits
    unfold Worker.dispatch at hw'
    cases hp : p.req with
    | exec sql params =>
      rw [hp] at hw' hbrief
      simp [Worker.runExec, show sqlBrief sql = none from hbrief] at hw'
    | prepare sql =>
      rw [hp] at hw' hbrief
      simp [Worker.runPrepare, show sqlBrief sql = none from hbrief] at hw'
    | close => simp [hp, Request.isClose] at hreq
  · intro hfits
    cases hdispatch : w.dispatch p with
    | ok w' => exact ⟨w', rfl⟩
    | error w' =>
      have hnone := (dispatch_error hdispatch).panics
      obtain ⟨brief, hbrief⟩ := sqlBrief_of_fits hfits
      rw [hnone] at hbrief
      cases hbrief

/-- A comment of 121 bytes: a character of two bytes stands at byte 119. -/
def longComment : String := String.ofList (List.replicate 119 '-' ++ ['é'])

theorem longComment_panics : sqlBrief longComment = none := by
  unfold sqlBrief oneLine longComment
  rw [String.toList_ofList]
  decide +kernel

end SqliteBroker.Panics
