import Minix4rt.OneshotProofs
import Minix4rt.MessageOrderProofs
import Minix4rt.SignalCountProofs
import Minix4rt.SendRecvTimeoutProofs
import Minix4rt.SemNameProofs
import Minix4rt.ExitProofs
import Minix4rt.TimedSleepProofs
import Minix4rt.VtimerCountProofs
import Minix4rt.PicMaskProofs
import Minix4rt.MaskTableProofs
import Minix4rt.IrqLockModelProofs
import Minix4rt.PriorityRangeProofs
import Minix4rt.BreakProofs
import Minix4rt.ExecImageProofs
import Minix4rt.DiskInodeProofs
import Minix4rt.BitmapProofs
import Minix4rt.HangupProofs
import Minix4rt.PipeCallProofs
import Minix4rt.SigkillProofs
