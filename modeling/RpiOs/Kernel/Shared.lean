import Mathlib.Data.BitVec

/-!
# What the parts of the kernel share

The error numbers of inc/linux/errno.h, which functions return with a minus sign; the end of the
user's addresses from inc/memlayout.h; `struct timespec` of inc/linux/time.h; and the inode of the
root directory.
-/

namespace RpiOs

/-! ## Errors -/

def eperm : Nat := 1

def esrch : Nat := 3

def ebadf : Nat := 9

def enomem : Nat := 12

def eacces : Nat := 13

def eexist : Nat := 17

def einval : Nat := 22

/-! ## Addresses and times -/

/-- `USERTOP`. -/
def usertop : Nat := 0x0001000000000000

/-- `struct timespec`: seconds and nanoseconds. -/
structure Timespec where
  tvSec : BitVec 64
  tvNsec : BitVec 64
  deriving DecidableEq

/-- `V6_ROOTINO` and `ROOTINO` of inc/v6.h, inc/vfs.h and usr/inc/param.h. -/
def rootino : Nat := 1

end RpiOs
