import Mathlib.Data.Nat.Notation

/-!
# Kernel parameters

The constants of `kernel/param.h` and `kernel/fs.h` that the models refer to, under their names in
the source.
-/

namespace Xv6

abbrev NOFILE : ℕ := 16

abbrev NFILE : ℕ := 100

abbrev NINODE : ℕ := 50

/-- Maximum number of `exec` arguments. -/
abbrev MAXARG : ℕ := 32

abbrev USERSTACK : ℕ := 1

/-- Maximum number of blocks any file-system operation writes. -/
abbrev MAXOPBLOCKS : ℕ := 10

/-- Maximum number of data blocks in the on-disk log. -/
abbrev LOGSIZE : ℕ := MAXOPBLOCKS * 3

abbrev NBUF : ℕ := MAXOPBLOCKS * 3

abbrev BSIZE : ℕ := 1024

abbrev NDIRECT : ℕ := 12

abbrev NINDIRECT : ℕ := BSIZE / 4

abbrev MAXFILE : ℕ := NDIRECT + NINDIRECT

end Xv6
