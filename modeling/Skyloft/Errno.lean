import Mathlib.Data.Int.Notation

/-!
# Error codes

The values of `errno.h` that the operations return, negated, and that the sockets store.
-/

namespace Skyloft

def eAgain : ℤ := 11
def eNomem : ℤ := 12
def eInval : ℤ := 22
def ePipe : ℤ := 32
def eDestAddrReq : ℤ := 89
def eMsgSize : ℤ := 90
def eAddrInUse : ℤ := 98
def eAddrNotAvail : ℤ := 99
def eConnAborted : ℤ := 103
def eConnReset : ℤ := 104
def eNobufs : ℤ := 105
def eInProgress : ℤ := 115

end Skyloft
