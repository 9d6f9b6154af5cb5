import Loadshear.HostInfo

/-!
# The logger

`logger.h` and `logger.cpp`. Threads push entries under a mutex; one worker
takes all that were pushed and prints them. A step is one section under the
mutex, one `notify_one` or one entry of the worker, so that runs are the
interleavings of the threads.
-/

namespace Loadshear

def LogLevel.index : LogLevel → Nat
  | .DEBUG => 0
  | .INFO => 1
  | .WARN => 2
  | .ERROR => 3

def logPrefix : LogLevel → String
  | .DEBUG => "\x1b[36m[DEBUG]:\x1b[0m "
  | .INFO => ""
  | .WARN => "\x1b[32m[WARN]:\x1b[0m "
  | .ERROR => "\x1b[31m[ERROR]:\x1b[0m "

/-- Where `worker_loop` stands. -/
inductive LogWorker where
  | locking
  /-- In `cv_.wait`, without the mutex. -/
  | waiting
  | printing (entry : LogEntry) (rest : List LogEntry)
  | returned
deriving DecidableEq

structure Logger where
  level : LogLevel
  running : Bool
  notify : Bool
  msgQueue : List LogEntry
  worker : LogWorker
  /-- Threads that are past the mutex and have yet to call `notify_one`. -/
  due : Nat
  /-- What went to `std::cout`, by entries. -/
  out : List String
deriving DecidableEq

namespace Logger

/-- `init`; the worker starts. -/
def init (initLevel : LogLevel) : Logger := ⟨initLevel, true, true, [], .locking, 0, []⟩

/-- The predicate of the wait. -/
def awake (l : Logger) : Bool := l.notify && !l.msgQueue.isEmpty || !l.running

def pushMessage (level : LogLevel) (msg : String) (l : Logger) : Logger :=
  { l with
    msgQueue := l.msgQueue ++ [⟨level, msg⟩]
    due := if l.notify then l.due + 1 else l.due }

def shutdown (l : Logger) : Logger := { l with running := false, due := l.due + 1 }

def setLevel (level : LogLevel) (l : Logger) : Logger := { l with level := level }

def pause (l : Logger) : Logger := { l with notify := false }

def resume (l : Logger) : Logger := { l with notify := true, due := l.due + 1 }

/-- One `notify_one`; it wakes the worker if that waits. -/
def notifyOne (l : Logger) : Option Logger :=
  if 0 < l.due then
    some { l with due := l.due - 1, worker := if l.worker = .waiting then .locking else l.worker }
  else none

/-- The worker under the mutex: the wait, or the swap of the queues. -/
def acquire (l : Logger) : Option Logger :=
  if l.worker = .locking then
    if l.awake then
      match l.msgQueue with
      -- Without entries `awake` leaves only `!running_`.
      | [] => some { l with worker := if l.running then .locking else .returned }
      | entry :: rest => some { l with msgQueue := [], worker := .printing entry rest }
    else some { l with worker := .waiting }
  else none

def printEntry (entry : LogEntry) (l : Logger) : List String :=
  if entry.level.index < l.level.index then l.out else l.out ++ [logPrefix entry.level ++ entry.msg ++ "\n"]

/-- The next entry of the queue that the worker holds, which is cleared after
the last one. -/
def print (l : Logger) : Option Logger :=
  match l.worker with
  | .printing entry [] => some { l with out := l.printEntry entry, worker := .locking }
  | .printing entry (next :: rest) => some { l with out := l.printEntry entry, worker := .printing next rest }
  | _ => none

inductive Event where
  | push (level : LogLevel) (msg : String)
  | setLevel (level : LogLevel)
  | pause
  | resume
  | shutdown
  | notifyOne
  /-- The wait returns without a notification. -/
  | wake
  | acquire
  | print
deriving DecidableEq

def step (l : Logger) : Event → Option Logger
  | .push level msg => some (l.pushMessage level msg)
  | .setLevel level => some (l.setLevel level)
  | .pause => some l.pause
  | .resume => some l.resume
  | .shutdown => some l.shutdown
  | .notifyOne => l.notifyOne
  | .wake => if l.worker = .waiting then some { l with worker := .locking } else none
  | .acquire => l.acquire
  | .print => l.print

end Logger

end Loadshear
