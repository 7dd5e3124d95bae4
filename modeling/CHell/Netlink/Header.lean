import CHell.Lib.CInt
import CHell.Lib.Records

/-!
# Netlink message layout

The macros of `linux/netlink.h` and `linux/rtnetlink.h` that the repository uses, with the
types their operands have there: `NLMSG_ALIGNTO` and `RTA_ALIGNTO` are `4U`, so aligning is done
in `unsigned int`; `RTA_LENGTH` adds to a `sizeof`, so it is a `size_t`; the length a walk has
left is an `int` from which an `unsigned` is subtracted.

| struct | fields (offset, bytes) |
| --- | --- |
| `nlmsghdr` | `nlmsg_len` 0 4, `nlmsg_type` 4 2, `nlmsg_flags` 6 2, `nlmsg_seq` 8 4, `nlmsg_pid` 12 4 |
| `rtmsg`    | `rtm_family`, `rtm_dst_len`, `rtm_src_len`, `rtm_tos`, `rtm_table`, `rtm_protocol`, `rtm_scope`, `rtm_type` 0..7 1, `rtm_flags` 8 4 |
| `rtattr`   | `rta_len` 0 2, `rta_type` 2 2 |
-/

namespace CHell.Netlink

open CInt Memory Records

def NLMSG_HDRLEN : Nat := 16

def NLMSG_ALIGN (len : Int) : Int := alignU 4 len
def RTA_ALIGN (len : Int) : Int := alignU 4 len

/-- A `size_t`, for an argument of type `int`. -/
def RTA_LENGTH (len : Int) : Int := toSize (4 + toSize len)
def RTA_DATA (rta : Nat) : Nat := rta + 4

/-- `attrlen -= RTA_ALIGN(rta_len)`, likewise for messages: through `unsigned` back to `int`. -/
def shorten (len aligned : Int) : Int := toInt (toUInt (toUInt len - aligned))

/-! ## Fields -/

def nlmsgLen (m : Mem) (h : Nat) : Option Nat := load m h 4
def nlmsgType (m : Mem) (h : Nat) : Option Nat := load m (h + 4) 2
def nlmsgFlags (m : Mem) (h : Nat) : Option Nat := load m (h + 6) 2

def rtmFamily (m : Mem) (r : Nat) : Option Nat := load m r 1
def rtmDstLen (m : Mem) (r : Nat) : Option Nat := load m (r + 1) 1
def rtmTable (m : Mem) (r : Nat) : Option Nat := load m (r + 4) 1

def rtaLen (m : Mem) (rta : Nat) : Option Nat := load m rta 2
def rtaType (m : Mem) (rta : Nat) : Option Nat := load m (rta + 2) 2

def RTM_NEWROUTE : Nat := 24
def AF_INET : Nat := 2
def AF_INET6 : Nat := 10
def RT_TABLE_MAIN : Nat := 254
def RTA_DST : Nat := 1
def RTA_OIF : Nat := 4

/-! ## Alignment and lengths -/

theorem rta_align_eq {n : Nat} (h : n < 4294967293) : RTA_ALIGN n = roundUp 4 n := by
  unfold RTA_ALIGN roundUp
  rw [alignU_four (by omega) (by omega)]
  omega

theorem nlmsg_align_eq {n : Nat} (h : n < 4294967293) : NLMSG_ALIGN n = roundUp 4 n :=
  rta_align_eq h

theorem rta_length_eq {n : Nat} (h : (n : Int) ≤ INT_MAX) : RTA_LENGTH n = (4 + n : Nat) := by
  unfold INT_MAX at h
  have hsize : toSize (n : Int) = n := toSize_id (by omega) (by omega)
  rw [RTA_LENGTH, hsize, toSize_id (by omega) (by omega)]
  omega

theorem roundUp_four_mod (n : Nat) : roundUp 4 n % 4 = 0 := by unfold roundUp; omega

theorem roundUp_four_lt (n : Nat) : roundUp 4 n < n + 4 := by unfold roundUp; omega

theorem roundUp_four_of_mod {n : Nat} (h : n % 4 = 0) : roundUp 4 n = n := by unfold roundUp; omega

theorem le_roundUp_four (n : Nat) : n ≤ roundUp 4 n := le_roundUp (by omega) n

/-- With an aligned length of at most the length plus 3, `int` arithmetic is exact. -/
theorem shorten_eq {len : Int} {n : Nat} (h0 : 0 ≤ len) (h : len ≤ INT_MAX) (hn : (n : Int) < len + 4) :
    shorten len n = len - n := by
  unfold shorten toInt toUInt INT_MAX at *
  omega

/-- Going on behind a record that is not longer than what is left leaves less. -/
theorem shorten_align_lt {len : Int} {l : Nat} (h0 : 0 < l) (hle : (l : Int) ≤ len) :
    shorten len (RTA_ALIGN l) < len := by
  by_cases hint : len ≤ INT_MAX
  · have hup := le_roundUp_four l
    have hlt := roundUp_four_lt l
    unfold INT_MAX at hint
    rw [rta_align_eq (by omega)]
    unfold shorten toInt toUInt
    omega
  · have hwrap : shorten len (RTA_ALIGN l) ≤ INT_MAX := by
      unfold shorten toInt INT_MAX
      omega
    omega

end CHell.Netlink
