import Zephyr.Pipe.Pipe

namespace Zephyr.Pipe

open PipeSys

@[simp] theorem setThread_threads (s : PipeSys) (t u : Nat) (st : PState) :
    (s.setThread t st).threads u = if u = t then st else s.threads u := by
  simp [setThread, Function.update_apply]

@[simp] theorem setThread_pipe (s : PipeSys) (t : Nat) (st : PState) :
    (s.setThread t st).pipe = s.pipe := rfl

@[simp] theorem setPipe_pipe (s : PipeSys) (p : KPipe) : (s.setPipe p).pipe = p := rfl

@[simp] theorem setPipe_threads (s : PipeSys) (p : KPipe) : (s.setPipe p).threads = s.threads := rfl

theorem waitForReturn_pipe_open (s : PipeSys) (rc : Int) :
    (waitForReturn s rc).1.pipe.isOpen = s.pipe.isOpen := by
  unfold waitForReturn
  by_cases hr : s.pipe.resetting
  · by_cases hw : s.pipe.waiting - 1 = 0 <;> simp [hr, hw]
  · simp [hr]

theorem waitForReturn_ok (s : PipeSys) (h : s.pipe.resetting = false) :
    (waitForReturn s 0).2 = 0 := by
  simp [waitForReturn, h]

-- Whatever it has already put in the ring buffer, a writer woken by
-- k_pipe_close returns -EPIPE.
theorem writeResume_closed (s : PipeSys) (t : Nat) (data : List Nat) (written : Nat)
    (dl : Option Nat) (hclosed : s.pipe.isOpen = false) (hreset : s.pipe.resetting = false) :
    (writeResume s t data written dl 0).threads t = .returned (-32) [] := by
  have hopen : (waitForReturn s 0).1.pipe.isOpen = false := by
    rw [waitForReturn_pipe_open, hclosed]
  have hrc := waitForReturn_ok s hreset
  unfold writeResume writeIter
  simp [hrc, hopen]

def pipeSysInit (size : Nat) : PipeSys :=
  { pipe := { size := size, buf := [], isOpen := true, resetting := false, waiting := 0,
              dataQ := [], spaceQ := [] },
    threads := fun _ => .idle, prio := fun _ => 0, now := 0, coherence := false }

def closedWhileWriting : PipeSys := kPipeClose (kPipeWrite (pipeSysInit 1) 1 [7, 8] .forever)

theorem pipe_write_epipe_after_partial_write :
    (kPipeWrite (pipeSysInit 1) 1 [7, 8] .forever).threads 1 = .pendWrite [7, 8] 1 none ∧
    (kPipeWrite (pipeSysInit 1) 1 [7, 8] .forever).pipe.buf = [7] ∧
    closedWhileWriting.threads 1 = .readyWrite [7, 8] 1 none 0 ∧
    (resume closedWhileWriting 1).threads 1 = .returned (-32) [] ∧
    (resume closedWhileWriting 1).pipe.buf = [7] ∧
    ((kPipeRead (resume closedWhileWriting 1) 2 1 .forever).threads 2) = .returned 1 [7] := by
  decide

end Zephyr.Pipe
