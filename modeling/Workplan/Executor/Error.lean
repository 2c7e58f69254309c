/-!
# Failures

Why an executor call fails, why a run ends without an outcome, and how both read.  The
failure of a call reads the same whether it is handed to a handler or ends the run.
-/

namespace Workplan

/-- How a task came to be aborted: by a panic, with what is reported of it, or for a
stated reason. -/
inductive Abort where
  | panic {report : String}
  | stated (reason : String)
deriving DecidableEq

/-- The wording of an abort. -/
def Abort.message : Abort → String
  | @panic report => report
  | stated reason => reason

/-- Why an executor call fails. -/
inductive ExecutorError where
  | failed (message : String)
  | io (detail : String)
  | aborted (cause : Abort)
deriving DecidableEq

/-- The failure of a task that panicked, with what is reported of it. -/
def ExecutorError.panicked (report : String) : ExecutorError :=
  aborted (@Abort.panic report)

/-- The wording of an executor's failure: a plain failure reads as the executor put it. -/
def ExecutorError.message : ExecutorError → String
  | failed message => message
  | io detail => "io error: " ++ detail
  | aborted cause => "executor task aborted: " ++ cause.message

/-- Why a run, or a loop of runs, ends without an outcome. -/
inductive WorkflowError where
  | executor (error : ExecutorError)
  /-- The key of an iterate step stands for something other than an array. -/
  | iterationSource (key found : String)
  | cancelled
  | loopTask (cause : Abort)
deriving DecidableEq

namespace WorkflowError

/-- The wording of a failure. -/
def message : WorkflowError → String
  | executor error => error.message
  | iterationSource key found =>
    "shared store key '" ++ key ++ "' does not hold an array (found " ++ found ++ ")"
  | cancelled => "workflow run cancelled"
  | loopTask cause => "loop task failed: " ++ cause.message

/-- Whether a failure handler may take the failure over. -/
def isAbsorbable : WorkflowError → Bool
  | cancelled => false
  | _ => true

end WorkflowError
end Workplan
