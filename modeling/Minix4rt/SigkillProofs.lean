import Minix4rt.MmPendingProofs
import Minix4rt.LeaveTerminationProofs

/-! # SIGKILL — no mask stops it, but the real-time task may

    SIGKILL is in no set of any process, so `sig_proc` finds nothing that keeps it from the
    end of a process.  Before that end MM asks the real-time task to take the process out of
    RT mode, and waits for the answer: `rtt_sendsig`, and `rtt_exit` twice.  With both answered
    the process ends.  But `MRT_set2nrt` loops for ever on a process that has a message in its
    queue, and then MM waits for ever too. -/

namespace Mm

open Regions State Option

variable {s s' : State} {p : Slot} {c : Ctx} {e : Env} {kill : Kill} {x : Panic}

end Mm
