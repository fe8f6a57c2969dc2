import Mathlib.Data.List.Infix
import Mathlib.Data.List.Basic

/-!
# The part of Python's runtime that `ghcr.py` leans on

Exceptions, the few `str` methods the script calls, and `datetime` and `timedelta` as
microsecond counts inside Python's ranges. An aware datetime keeps its wall clock and its
UTC offset, a naive one only its wall clock; ordering or subtracting one of each kind is a
`TypeError`, as in CPython. `datetime.fromisoformat` and `re.compile` are library calls whose
behaviour the model takes as given (`Stdlib`).
-/

namespace GhcrCleanup.Runtime

/-- The exceptions the script raises or lets through. `Other` is whatever an injected
callable or the network may raise besides these. -/
inductive Exn where
  | AuthenticationError (msg : String)
  | OverflowError
  | ValueError
  | TypeError
  | ReError
  | HTTPError (status : Nat)
  | FileNotFoundError
  | SystemExit (code : Nat)
  | Other (name : String)
  deriving DecidableEq, Repr

/-- Outcomes compare by constructor and payload, so that a run of the model can be decided. -/
instance {α : Type} [DecidableEq α] : DecidableEq (Except Exn α)
  | .ok a, .ok b => decidable_of_iff (a = b) (by simp)
  | .error a, .error b => decidable_of_iff (a = b) (by simp)
  | .ok _, .error _ => isFalse (by simp)
  | .error _, .ok _ => isFalse (by simp)

theorem bind_eq_ok {α β : Type} (x : Except Exn α) (f : α → Except Exn β) (b : β) :
    x >>= f = .ok b ↔ ∃ a, x = .ok a ∧ f a = .ok b := by
  cases x <;> simp [bind, Except.bind]

theorem map_eq_ok {α β : Type} (x : Except Exn α) (f : α → β) (b : β) :
    x.map f = .ok b ↔ ∃ a, x = .ok a ∧ f a = b := by
  cases x <;> simp [Except.map]

/-! ## `str` -/

/-- The characters `str.isspace()` accepts. -/
def isSpace (c : Char) : Bool :=
  let n := c.toNat
  (9 ≤ n && n ≤ 13) || (28 ≤ n && n ≤ 32) || n == 0x85 || n == 0xA0 || n == 0x1680 ||
    (0x2000 ≤ n && n ≤ 0x200A) || n == 0x2028 || n == 0x2029 || n == 0x202F || n == 0x205F ||
    n == 0x3000

/-- `s.strip()`. -/
def strip (s : String) : String :=
  ⟨((s.data.dropWhile isSpace).reverse.dropWhile isSpace).reverse⟩

/-- `s.replace(old, new)` for a one-character `old`. -/
def replaceChar (s : String) (old : Char) (new : String) : String :=
  ⟨s.data.flatMap fun c => if c = old then new.data else [c]⟩

/-- `s.startswith(pre)`. -/
def startsWith (s pre : String) : Bool := pre.data.isPrefixOf s.data

/-! ## `timedelta` and `datetime` -/

/-- Microseconds in a day. -/
def usPerDay : Int := 86400000000

/-- `timedelta.min`, in microseconds. -/
def minDelta : Int := -999999999 * usPerDay

/-- `timedelta.max`, in microseconds. -/
def maxDelta : Int := 1000000000 * usPerDay - 1

/-- `9999-12-31T23:59:59.999999`, in microseconds from `0001-01-01T00:00:00`. -/
def maxWall : Int := 3652059 * usPerDay - 1

/-- A `timedelta`, in microseconds. -/
structure Timedelta where
  us : Int
  range : minDelta ≤ us ∧ us ≤ maxDelta

/-- A `datetime`: its wall clock, and its UTC offset when it is aware. -/
structure Datetime where
  wall : Int
  utcoffset : Option Int
  wall_range : 0 ≤ wall ∧ wall ≤ maxWall
  offset_range : ∀ o ∈ utcoffset, -usPerDay < o ∧ o < usPerDay

/-- `datetime.min`. -/
def Datetime.min : Datetime := ⟨0, none, by decide, by simp⟩

/-- `datetime.now(timezone.utc)` is aware, with offset zero. -/
def UtcDatetime := { d : Datetime // d.utcoffset = some 0 }

/-- `timedelta(microseconds=us)`: `OverflowError` past `±999999999` days. -/
def timedelta (us : Int) : Except Exn Timedelta :=
  if h : minDelta ≤ us ∧ us ≤ maxDelta then .ok ⟨us, h⟩ else .error .OverflowError

/-- `abs(td)`, which cannot leave the range since `-timedelta.min ≤ timedelta.max`. -/
def Timedelta.abs (t : Timedelta) : Timedelta :=
  if h : t.us < 0 then
    ⟨-t.us, by have := t.range; simp only [minDelta, maxDelta, usPerDay] at *; omega⟩
  else t

/-- `d - td`: `OverflowError` when the wall clock leaves `datetime`'s range. -/
def Datetime.subTimedelta (d : Datetime) (t : Timedelta) : Except Exn Datetime :=
  if h : 0 ≤ d.wall - t.us ∧ d.wall - t.us ≤ maxWall then
    .ok ⟨d.wall - t.us, d.utcoffset, h, d.offset_range⟩
  else .error .OverflowError

theorem timedelta_ok_iff {us : Int} {t : Timedelta} :
    timedelta us = .ok t ↔ t.us = us := by
  unfold timedelta
  split
  · constructor
    · intro h; cases h; rfl
    · intro h; cases t; subst h; rfl
  · constructor
    · intro h; cases h
    · intro h; exact absurd (h ▸ t.range) ‹_›

theorem subTimedelta_ok_iff {d c : Datetime} {t : Timedelta} :
    d.subTimedelta t = .ok c ↔ c.wall = d.wall - t.us ∧ c.utcoffset = d.utcoffset := by
  unfold Datetime.subTimedelta
  split
  · constructor
    · intro h; cases h; exact ⟨rfl, rfl⟩
    · rintro ⟨hw, ho⟩
      cases c
      simp only at hw ho
      subst hw ho
      rfl
  · constructor
    · intro h; cases h
    · rintro ⟨hw, -⟩; exact absurd (hw ▸ c.wall_range) ‹_›

/-- `a - b` for two datetimes: aware ones are compared in UTC, naive ones by wall clock. -/
def Datetime.sub (a b : Datetime) : Except Exn Timedelta :=
  match a.utcoffset, b.utcoffset with
  | some oa, some ob => timedelta ((a.wall - oa) - (b.wall - ob))
  | none, none => timedelta (a.wall - b.wall)
  | _, _ => .error .TypeError

/-- `a > b` for two datetimes. -/
def Datetime.gt (a b : Datetime) : Except Exn Bool :=
  match a.utcoffset, b.utcoffset with
  | some oa, some ob => .ok (decide (b.wall - ob < a.wall - oa))
  | none, none => .ok (decide (b.wall < a.wall))
  | _, _ => .error .TypeError

theorem Datetime.gt_aware {a b : Datetime} {oa ob : Int} (ha : a.utcoffset = some oa)
    (hb : b.utcoffset = some ob) : a.gt b = .ok (decide (b.wall - ob < a.wall - oa)) := by
  simp [Datetime.gt, ha, hb]

/-- Two aware datetimes are less than ten thousand years apart, so their difference is
always a `timedelta`. -/
theorem Datetime.sub_aware {a b : Datetime} {oa ob : Int} (ha : a.utcoffset = some oa)
    (hb : b.utcoffset = some ob) : ∃ t, a.sub b = .ok t ∧ t.us = (a.wall - oa) - (b.wall - ob) := by
  have hoa := a.offset_range oa ha
  have hob := b.offset_range ob hb
  have hwa := a.wall_range
  have hwb := b.wall_range
  have hr : minDelta ≤ (a.wall - oa) - (b.wall - ob) ∧ (a.wall - oa) - (b.wall - ob) ≤ maxDelta := by
    simp only [minDelta, maxDelta, maxWall, usPerDay] at *
    omega
  exact ⟨⟨_, hr⟩, by simp [Datetime.sub, ha, hb, timedelta, hr], rfl⟩

theorem Datetime.sub_isOk {a b : Datetime} (ha : a.utcoffset.isSome) (hb : b.utcoffset.isSome) :
    (a.sub b).isOk := by
  obtain ⟨oa, hoa⟩ := Option.isSome_iff_exists.1 ha
  obtain ⟨ob, hob⟩ := Option.isSome_iff_exists.1 hb
  obtain ⟨t, ht, -⟩ := Datetime.sub_aware hoa hob
  simp [ht, Except.isOk, Except.toBool]

/-- A datetime later than `b` is later than any `b'` at the same offset and no later wall
clock. -/
theorem Datetime.gt_mono {a b b' : Datetime} (h : a.gt b = .ok true)
    (ho : b'.utcoffset = b.utcoffset) (hw : b'.wall ≤ b.wall) : a.gt b' = .ok true := by
  unfold Datetime.gt at h ⊢
  rw [ho]
  split at h <;> simp_all only [Except.ok.injEq, decide_eq_true_eq, reduceCtorEq] <;> omega

/-- `"%0*d" % (w, n)`. -/
def zeroPad (w n : Nat) : String :=
  let s := toString n
  ⟨List.replicate (w - s.length) '0' ++ s.data⟩

/-- `str(timedelta(microseconds=us))`: `[D day[s], ]H:MM:SS[.ffffff]`, with the days rounded
down as CPython keeps them. -/
def timedeltaStr (us : Int) : String :=
  let days := us / usPerDay
  let secs := (us % usPerDay / 1000000).toNat
  let micro := (us % 1000000).toNat
  let hms := toString (secs / 3600) ++ ":" ++ zeroPad 2 (secs % 3600 / 60) ++ ":" ++
    zeroPad 2 (secs % 60)
  let s := if days = 0 then hms
    else toString days ++ " day" ++ (if days.natAbs = 1 then "" else "s") ++ ", " ++ hms
  if micro = 0 then s else s ++ "." ++ zeroPad 6 micro

/-- `str(td)`. -/
def Timedelta.str (t : Timedelta) : String := timedeltaStr t.us

example : timedeltaStr (604800 * 1000000) = "7 days, 0:00:00" := by decide
example : timedeltaStr (-1) = "-1 day, 23:59:59.999999" := by decide

/-- The library calls of `find_versions_to_clean` taken as given: `datetime.fromisoformat`,
and `re.compile(pattern)` as the `search` of the compiled pattern. `none` is the
`ValueError` or `re.error` they raise. -/
structure Stdlib where
  fromisoformat : String → Option Datetime
  compile : String → Option (String → Bool)

/-! ## A concrete library

For the examples: `datetime.fromisoformat` on the strings `YYYY-MM-DDTHH:MM:SS±HH:MM` that
`isoformat()` writes for an aware datetime without microseconds, and `re` on literal
patterns, optionally anchored by a leading `^`. Both agree with Python on those inputs and
refuse every other one, which Python does for a string such as `(` but not in general. -/

/-- The value of a non-empty run of ASCII digits. -/
def digits (cs : List Char) : Option Nat :=
  if cs ≠ [] ∧ cs.all Char.isDigit then
    some (cs.foldl (fun n c => 10 * n + (c.toNat - '0'.toNat)) 0)
  else none

def isLeap (y : Nat) : Bool := y % 4 = 0 ∧ (y % 100 ≠ 0 ∨ y % 400 = 0)

def daysInMonth (y m : Nat) : Nat :=
  if m = 2 then (if isLeap y then 29 else 28)
  else if m = 4 ∨ m = 6 ∨ m = 9 ∨ m = 11 then 30 else 31

/-- Days from `0001-01-01` to `y-m-d`, as CPython's `_ymd2ord(y, m, d) - 1`. -/
def daysBefore (y m d : Nat) : Nat :=
  365 * (y - 1) + (y - 1) / 4 - (y - 1) / 100 + (y - 1) / 400 +
    ((List.range (m - 1)).map fun i => daysInMonth y (i + 1)).foldr (· + ·) 0 + (d - 1)

/-- The number in `n` characters of `cs` from position `i`. -/
def field (cs : List Char) (i n : Nat) : Option Nat := digits ((cs.drop i).take n)

/-- The separators of `YYYY-MM-DDTHH:MM:SS±HH:MM`. -/
def isoShape (cs : List Char) : Bool :=
  cs.length == 25 && cs[4]? == some '-' && cs[7]? == some '-' && cs[10]? == some 'T' &&
    cs[13]? == some ':' && cs[16]? == some ':' && cs[22]? == some ':'

def offsetSign : Option Char → Option Int
  | some '+' => some 1
  | some '-' => some (-1)
  | _ => none

/-- The ranges `fromisoformat` checks. -/
def isoValid (y m d hh mm ss oh om : Nat) : Bool :=
  1 ≤ y && 1 ≤ m && m ≤ 12 && 1 ≤ d && d ≤ daysInMonth y m && hh < 24 && mm < 60 && ss < 60 &&
    oh < 24 && om < 60

/-- An aware datetime, when the wall clock and the offset are in range. -/
def awareDatetime (wall off : Int) : Option Datetime :=
  if hw : 0 ≤ wall ∧ wall ≤ maxWall then
    if ho : -usPerDay < off ∧ off < usPerDay then
      some ⟨wall, some off, hw, fun o h => by cases h; exact ho⟩
    else none
  else none

/-- `datetime.fromisoformat` on `YYYY-MM-DDTHH:MM:SS±HH:MM`. -/
def isoformat (s : String) : Option Datetime :=
  let cs := s.data
  if isoShape cs then
    match field cs 0 4, field cs 5 2, field cs 8 2, field cs 11 2, field cs 14 2, field cs 17 2,
      field cs 20 2, field cs 23 2, offsetSign cs[19]? with
    | some y, some m, some d, some hh, some mm, some ss, some oh, some om, some sign =>
      if isoValid y m d hh mm ss oh om then
        awareDatetime ((((daysBefore y m d * 24 + hh) * 60 + mm) * 60 + ss) * 1000000 : Nat)
          (sign * ((oh * 60 + om) * 60 * 1000000 : Nat))
      else none
    | _, _, _, _, _, _, _, _, _ => none
  else none

/-- The metacharacters of `re`. -/
def isMeta (c : Char) : Bool := ".^$*+?\x7b\x7d[]\\|()".data.contains c

/-- `re.compile(p).search` for a literal pattern, optionally anchored by a leading `^`. -/
def literalSearch (p : String) : Option (String → Bool) :=
  match p.data with
  | '^' :: rest => if rest.all (!isMeta ·) then some fun t => rest.isPrefixOf t.data else none
  | cs => if cs.all (!isMeta ·) then some fun t => decide (cs <:+: t.data) else none

/-- The concrete library of the examples. -/
def sampleLib : Stdlib := ⟨isoformat, literalSearch⟩

/-- `2026-11-09T00:00:00+00:00`, the `now` of the examples. -/
def sampleNow : UtcDatetime :=
  ⟨⟨739928 * usPerDay, some 0, by decide, fun o h => by cases h; decide⟩, rfl⟩

example : (isoformat "2024-05-01T12:00:00+00:00").map (·.wall) =
    some ((739006 * 86400 + 12 * 3600) * 1000000) := by decide

end GhcrCleanup.Runtime
