import CellNet.Cxx
import CellNet.SortedMap
import Mathlib.Data.List.Lex
import Mathlib.Data.List.TakeWhile
import Mathlib.Data.UInt

/-!
# The command line

`CELLConfig` keeps the arguments of `main` as keys with values. `madeCmd` cuts an argument
at its first `=`, in place : it writes the terminator of the key there, so the argument is
the key alone afterwards. An argument without `=` is a key with the value `""`, and a later
argument replaces an earlier one with the same key.

An argument is a block with a terminator somewhere in it. `IsArg` says how `madeCmd` takes
it apart; from that the loop of `Init` is a list of assignments (`madeCmds_eq`), whose
result is `find_setAll`. `config_init_iff` is this for any arguments, with a second `Init`
over what the first one left of them. `config_round_trip` is that what is given as `k=v` is
read back, as a string or as an `int` in decimal.
-/

namespace CellNet

/-! ## Strings -/

/-- `'='`. -/
def equalSign : UInt8 :=
  61

/-- `strchr` : the index of `c` in the string at the start of a block. -/
def strchr (c : UInt8) : List UInt8 → Exec (Option ℕ)
  | [] => .error .outOfBounds
  | b :: bs =>
    if b = c then .ok (some 0)
    else if b = 0 then .ok none
    else Option.map (· + 1) <$> strchr c bs

/-- The string at the start of a block, as `std::string` copies it. -/
def cString : List UInt8 → Exec (List UInt8)
  | [] => .error .outOfBounds
  | b :: bs => if b = 0 then .ok [] else (b :: ·) <$> cString bs

/-- `isspace`. -/
def isspace (c : UInt8) : Bool :=
  c = 32 || (9 ≤ c && c ≤ 13)

/-- `isdigit`. -/
def isdigit (c : UInt8) : Bool :=
  48 ≤ c && c ≤ 57

/-- The number with the decimal digits `ds`. -/
def ofDigits (ds : List UInt8) : ℕ :=
  ds.foldl (fun n d => 10 * n + (d.toNat - 48)) 0

/-- The sign in front of a number. -/
def takeSign : List UInt8 → Bool × List UInt8
  | 45 :: s => (true, s)
  | 43 :: s => (false, s)
  | s => (false, s)

/-- `atoi`. A value that is no `int` is undefined. -/
def atoi (s : List UInt8) : Option ℤ :=
  let r := takeSign (s.dropWhile isspace)
  let n : ℤ := ofDigits (r.2.takeWhile isdigit)
  let v := if r.1 then -n else n
  if -2147483648 ≤ v ∧ v < 2147483648 then some v else none

/-! ## CELLConfig -/

/-- The order of `std::string` compares bytes. -/
instance linearOrderByte : LinearOrder UInt8 where
  le_refl := UInt8.le_refl
  le_trans _ _ _ := UInt8.le_trans
  lt_iff_le_not_ge _ _ := by simp only [UInt8.le_iff_toNat_le, UInt8.lt_iff_toNat_lt]; omega
  le_antisymm _ _ := UInt8.le_antisymm
  le_total := UInt8.le_total
  toDecidableLE := inferInstance

/-- A `CELLConfig`. -/
structure CELLConfig where
  exePath : List UInt8
  kv : SortedMap (List UInt8) (List UInt8)

/-- The lines it logs. -/
inductive ConfigLog
  /-- `CELLConfig::getStr not find <%s>`, which `getInt` writes too. -/
  | notFind (argName : List UInt8)
  /-- `CELLConfig::getStr %s=%s`. -/
  | getStr (argName value : List UInt8)
  /-- `CELLConfig::getInt %s=%d`. -/
  | getInt (argName : List UInt8) (value : Option ℤ)
  deriving DecidableEq, Repr

namespace CELLConfig

/-- `madeCmd`, with the argument as it is left. -/
def madeCmd (cfg : CELLConfig) (cmd : List UInt8) : Exec (CELLConfig × List UInt8) := do
  match ← strchr equalSign cmd with
  | some val =>
    let cmd ← Block.store cmd val [0]
    let k ← cString cmd
    let v ← cString (cmd.drop (val + 1))
    return ({ cfg with kv := cfg.kv.set k v }, cmd)
  | none =>
    let k ← cString cmd
    return ({ cfg with kv := cfg.kv.set k [] }, cmd)

/-- The loop of `Init`. -/
def madeCmds (cfg : CELLConfig) : List (List UInt8) → Exec (CELLConfig × List (List UInt8))
  | [] => return (cfg, [])
  | cmd :: cmds => do
    let (cfg, cmd) ← cfg.madeCmd cmd
    let (cfg, cmds) ← madeCmds cfg cmds
    return (cfg, cmd :: cmds)

/-- `Init`, with the arguments as they are left. With `argc = 0` the first is a null
pointer. -/
def init (cfg : CELLConfig) : List (List UInt8) → Exec (CELLConfig × List (List UInt8))
  | [] => .error .nullDeref
  | exe :: cmds => do
    let exePath ← cString exe
    let (cfg, cmds) ← madeCmds { cfg with exePath } cmds
    return (cfg, exe :: cmds)

/-- `getStr`, with the lines it logs. -/
def getStr (cfg : CELLConfig) (argName dflt : List UInt8) : List UInt8 × List ConfigLog :=
  match cfg.kv.find argName with
  | none => (dflt, [.notFind argName, .getStr argName dflt])
  | some e => (e.2, [.getStr argName e.2])

/-- `getInt`, with the lines it logs. -/
def getInt (cfg : CELLConfig) (argName : List UInt8) (dflt : ℤ) : Option ℤ × List ConfigLog :=
  match cfg.kv.find argName with
  | none => (some dflt, [.notFind argName, .getInt argName (some dflt)])
  | some e => (atoi e.2, [.getInt argName (atoi e.2)])

/-- `hasKey`. -/
def hasKey (cfg : CELLConfig) (key : List UInt8) : Bool :=
  (cfg.kv.find key).isSome

end CELLConfig

/-! ## One argument -/

/-- `cmd` is the argument with the key `k` and the value `v`, and `cmd'` is what `madeCmd`
leaves of it. -/
inductive IsArg : List UInt8 → List UInt8 → List UInt8 → List UInt8 → Prop
  | pair {k v rest : List UInt8} : equalSign ∉ k → 0 ∉ k → 0 ∉ v →
    IsArg (k ++ equalSign :: (v ++ 0 :: rest)) k v (k ++ 0 :: (v ++ 0 :: rest))
  | flag {k rest : List UInt8} : equalSign ∉ k → 0 ∉ k →
    IsArg (k ++ 0 :: rest) k [] (k ++ 0 :: rest)

/-- What an argument assigns : the string up to its first `=`, and the string behind it. -/
def assigned (cmd : List UInt8) : List UInt8 × List UInt8 :=
  let str := cmd.takeWhile (· ≠ 0)
  (str.takeWhile (· ≠ equalSign), (str.dropWhile (· ≠ equalSign)).tail)

section Arguments

variable {k v s cmd cmd' rest : List UInt8} {c : UInt8}

theorem cString_eq (hs : 0 ∉ s) (rest : List UInt8) : cString (s ++ 0 :: rest) = .ok s := by
  induction s with
  | nil => rfl
  | cons b bs ih =>
    obtain ⟨hb, hbs⟩ := not_or.mp (mt List.mem_cons.mpr hs)
    rw [List.cons_append, cString, if_neg (Ne.symm hb), ih hbs]
    rfl

theorem cString_error (hs : 0 ∉ s) : cString s = .error .outOfBounds := by
  induction s with
  | nil => rfl
  | cons b bs ih =>
    obtain ⟨hb, hbs⟩ := not_or.mp (mt List.mem_cons.mpr hs)
    rw [cString, if_neg (Ne.symm hb), ih hbs]
    rfl

/-- The search passes over what is neither `c` nor the terminator. -/
theorem strchr_append (hc : c ∉ s) (hs : 0 ∉ s) (rest : List UInt8) :
    strchr c (s ++ rest) = Option.map (· + s.length) <$> strchr c rest := by
  induction s with
  | nil =>
    rw [List.nil_append, List.length_nil]
    cases strchr c rest with
    | error u => rfl
    | ok o => cases o <;> rfl
  | cons b bs ih =>
    obtain ⟨hbc, hbsc⟩ := not_or.mp (mt List.mem_cons.mpr hc)
    obtain ⟨hb, hbs⟩ := not_or.mp (mt List.mem_cons.mpr hs)
    rw [List.cons_append, strchr, if_neg (Ne.symm hbc), if_neg (Ne.symm hb), ih hbsc hbs]
    cases strchr c rest with
    | error u => rfl
    | ok o => cases o <;> rfl

theorem strchr_found (hc : c ∉ s) (hs : 0 ∉ s) (rest : List UInt8) :
    strchr c (s ++ c :: rest) = .ok (some s.length) := by
  rw [strchr_append hc hs, strchr, if_pos rfl]
  exact congrArg (fun n => Except.ok (some n)) (Nat.zero_add _)

theorem strchr_missing (h0 : c ≠ 0) (hc : c ∉ s) (hs : 0 ∉ s) (rest : List UInt8) :
    strchr c (s ++ 0 :: rest) = .ok none := by
  rw [strchr_append hc hs, strchr, if_neg (Ne.symm h0), if_pos rfl]
  rfl

theorem equalSign_ne_zero : equalSign ≠ 0 := by
  decide

theorem store_terminator (k rest : List UInt8) (c : UInt8) :
    Block.store (k ++ c :: rest) k.length [0] = .ok (k ++ 0 :: rest) := by
  rw [Block.store_eq _ _ _ (by simp), List.take_left' rfl, List.length_singleton,
    ← List.drop_drop, List.drop_left' rfl, List.append_assoc]
  rfl

theorem drop_key (k rest : List UInt8) (c : UInt8) :
    (k ++ c :: rest).drop (k.length + 1) = rest := by
  rw [← List.drop_drop, List.drop_left' rfl]
  rfl

/-- Every block with a terminator is an argument. -/
theorem exists_isArg (h : 0 ∈ cmd) : ∃ k v cmd', IsArg cmd k v cmd' := by
  obtain ⟨str, rest, rfl, hstr⟩ := List.eq_append_cons_of_mem h
  by_cases heq : equalSign ∈ str
  · obtain ⟨k, v, rfl, hk⟩ := List.eq_append_cons_of_mem heq
    rw [List.mem_append, List.mem_cons, not_or, not_or] at hstr
    rw [List.append_assoc, List.cons_append]
    exact ⟨k, v, _, .pair hk hstr.1 hstr.2.2⟩
  · exact ⟨str, [], _, .flag heq hstr⟩

namespace IsArg

theorem assigned_eq (h : IsArg cmd k v cmd') : assigned cmd = (k, v) := by
  have htake : ∀ {p : UInt8 → Bool} {s r : List UInt8} {b : UInt8},
      (∀ c ∈ s, p c = true) → p b = false →
        (s ++ b :: r).takeWhile p = s ∧ (s ++ b :: r).dropWhile p = b :: r := by
    intro p s r b hs hb
    have hbp : ¬p b = true := Bool.eq_false_iff.mp hb
    rw [List.takeWhile_append_of_pos hs, List.dropWhile_append_of_pos hs,
      List.takeWhile_cons_of_neg hbp, List.dropWhile_cons_of_neg hbp, List.append_nil]
    exact ⟨rfl, rfl⟩
  have hne : ∀ {s : List UInt8} {c : UInt8}, c ∉ s → ∀ b ∈ s, decide (b ≠ c) = true := by
    intro s c hc b hb
    exact decide_eq_true fun heq => hc (heq ▸ hb)
  cases h with
  | @pair k v rest hk hk0 hv0 =>
    have hstr : ∀ b ∈ k ++ equalSign :: v, decide (b ≠ 0) = true := by
      refine hne fun hmem => ?_
      rw [List.mem_append, List.mem_cons] at hmem
      exact hmem.elim hk0 fun hmem => hmem.elim equalSign_ne_zero.symm hv0
    have hsplit : k ++ equalSign :: (v ++ 0 :: rest) = (k ++ equalSign :: v) ++ 0 :: rest := by
      rw [List.append_assoc, List.cons_append]
    obtain ⟨htk, hdk⟩ := htake (r := v) (hne hk) (decide_eq_false (not_not_intro rfl))
    rw [assigned, hsplit, (htake hstr (decide_eq_false (not_not_intro rfl))).1, htk, hdk,
      List.tail_cons]
  | @flag k rest hk hk0 =>
    obtain ⟨htk, -⟩ := htake (r := rest) (hne hk0) (decide_eq_false (not_not_intro rfl))
    rw [assigned, htk, List.takeWhile_eq_self_iff.mpr (hne hk),
      List.dropWhile_eq_nil_iff.mpr (hne hk)]
    rfl

/-- What is left of an argument is its key. -/
theorem again (h : IsArg cmd k v cmd') : IsArg cmd' k [] cmd' := by
  cases h with
  | pair hk hk0 hv0 => exact .flag hk hk0
  | flag hk hk0 => exact .flag hk hk0

theorem length_eq (h : IsArg cmd k v cmd') : cmd'.length = cmd.length := by
  cases h <;> simp

theorem madeCmd_eq (h : IsArg cmd k v cmd') (cfg : CELLConfig) :
    cfg.madeCmd cmd = .ok ({ cfg with kv := cfg.kv.set k v }, cmd') := by
  rw [CELLConfig.madeCmd]
  cases h with
  | @pair k v rest hk hk0 hv0 =>
    rw [strchr_found hk hk0, Fallible.ok_bind]
    dsimp only
    rw [store_terminator, Fallible.ok_bind, cString_eq hk0, Fallible.ok_bind, drop_key,
      cString_eq hv0]
    rfl
  | @flag k rest hk hk0 =>
    rw [strchr_missing equalSign_ne_zero hk hk0, Fallible.ok_bind]
    dsimp only
    rw [cString_eq hk0]
    rfl

end IsArg

/-- Without a terminator the search or the copy runs out of the block. -/
theorem madeCmd_error (h : 0 ∉ cmd) (cfg : CELLConfig) :
    cfg.madeCmd cmd = .error .outOfBounds := by
  rw [CELLConfig.madeCmd]
  by_cases heq : equalSign ∈ cmd
  · obtain ⟨k, v, rfl, hk⟩ := List.eq_append_cons_of_mem heq
    rw [List.mem_append, List.mem_cons, not_or, not_or] at h
    obtain ⟨hk0, -, hv0⟩ := h
    rw [strchr_found hk hk0, Fallible.ok_bind]
    dsimp only
    rw [store_terminator, Fallible.ok_bind, cString_eq hk0, Fallible.ok_bind, drop_key,
      cString_error hv0]
    rfl
  · have hend := strchr_append heq h []
    rw [List.append_nil] at hend
    rw [hend]
    rfl

end Arguments

/-! ## All arguments -/

/-- The map after the assignments `es`. -/
def setAll (m : SortedMap (List UInt8) (List UInt8)) (es : List (List UInt8 × List UInt8)) :
    SortedMap (List UInt8) (List UInt8) :=
  es.foldl (fun m e => m.set e.1 e.2) m

/-- The last assignment to a key counts. -/
theorem find_setAll (es : List (List UInt8 × List UInt8))
    (m : SortedMap (List UInt8) (List UInt8)) (k : List UInt8) :
    (setAll m es).find k = (es.reverse.find? fun e => e.1 = k).or (m.find k) := by
  induction es generalizing m with
  | nil => rfl
  | cons e es ih =>
    rw [setAll, List.foldl_cons, ← setAll, ih, SortedMap.find_set, List.reverse_cons,
      List.find?_append, Option.or_assoc]
    congr 1
    by_cases hk : e.1 = k
    · rw [if_pos hk.symm, List.find?_cons_of_pos (by simpa using hk), Option.some_or]
    · rw [if_neg (Ne.symm hk), List.find?_cons_of_neg (by simpa using hk), List.find?_nil,
        Option.none_or]

/-- What `madeCmd` leaves of the argument `cmd`. -/
def Cut (cmd cmd' : List UInt8) : Prop :=
  IsArg cmd (assigned cmd).1 (assigned cmd).2 cmd'

theorem IsArg.cut {k v cmd cmd' : List UInt8} (h : IsArg cmd k v cmd') : Cut cmd cmd' := by
  rw [Cut, h.assigned_eq]
  exact h

/-- The loop of `Init` makes the assignments of the arguments, one after the other. -/
theorem madeCmds_eq {cmds : List (List UInt8)} (h : ∀ cmd ∈ cmds, 0 ∈ cmd) (cfg : CELLConfig) :
    ∃ cmds', cfg.madeCmds cmds = .ok ({ cfg with kv := setAll cfg.kv (cmds.map assigned) }, cmds') ∧
      List.Forall₂ Cut cmds cmds' := by
  induction cmds generalizing cfg with
  | nil => exact ⟨[], rfl, .nil⟩
  | cons cmd cmds ih =>
    obtain ⟨k, v, cmd', harg⟩ := exists_isArg (h cmd List.mem_cons_self)
    obtain ⟨cmds', hcmds, hcut⟩ := ih (fun cmd hcmd => h cmd (List.mem_cons_of_mem _ hcmd))
      { cfg with kv := cfg.kv.set k v }
    refine ⟨cmd' :: cmds', ?_, .cons harg.cut hcut⟩
    rw [CELLConfig.madeCmds, harg.madeCmd_eq, Fallible.ok_bind]
    dsimp only
    rw [hcmds, List.map_cons, harg.assigned_eq]
    rfl

theorem madeCmds_error {cmds : List (List UInt8)} (h : ∃ cmd ∈ cmds, 0 ∉ cmd) (cfg : CELLConfig) :
    cfg.madeCmds cmds = .error .outOfBounds := by
  induction cmds generalizing cfg with
  | nil => simp at h
  | cons cmd cmds ih =>
    rw [CELLConfig.madeCmds]
    by_cases hcmd : 0 ∈ cmd
    · obtain ⟨k, v, cmd', harg⟩ := exists_isArg hcmd
      have hrest : ∃ cmd ∈ cmds, 0 ∉ cmd := by
        obtain ⟨c, hc, h0⟩ := h
        exact ⟨c, (List.mem_cons.mp hc).resolve_left fun heq => h0 (heq ▸ hcmd), h0⟩
      rw [harg.madeCmd_eq, Fallible.ok_bind]
      dsimp only
      rw [ih hrest]
      rfl
    · rw [madeCmd_error hcmd]
      rfl

theorem find_key_again {cmds : List (List UInt8)} {k : List UInt8}
    (h : ∃ cmd ∈ cmds, (assigned cmd).1 = k) :
    ((cmds.map fun cmd => ((assigned cmd).1, ([] : List UInt8))).reverse.find?
      fun e => e.1 = k) = some (k, []) := by
  obtain ⟨cmd, hcmd, hk⟩ := h
  cases hfind : (cmds.map fun cmd => ((assigned cmd).1, ([] : List UInt8))).reverse.find?
      fun e => e.1 = k with
  | none =>
    have hnone := List.find?_eq_none.mp hfind ((assigned cmd).1, [])
      (List.mem_reverse.mpr (List.mem_map.mpr ⟨cmd, hcmd, rfl⟩))
    exact absurd (decide_eq_true hk) hnone
  | some e =>
    have hmem := List.mem_reverse.mp (List.mem_of_find?_eq_some hfind)
    obtain ⟨cmd', -, rfl⟩ := List.mem_map.mp hmem
    have hk' : (assigned cmd').1 = k := by simpa using List.find?_some hfind
    rw [hk']

theorem find_key_none {cmds : List (List UInt8)} {k : List UInt8} {f : List UInt8 → List UInt8}
    (h : ¬∃ cmd ∈ cmds, (assigned cmd).1 = k) :
    ((cmds.map fun cmd => ((assigned cmd).1, f cmd)).reverse.find? fun e => e.1 = k) = none := by
  refine List.find?_eq_none.mpr fun e he hk => ?_
  obtain ⟨cmd, hcmd, rfl⟩ := List.mem_map.mp (List.mem_reverse.mp he)
  exact h ⟨cmd, hcmd, of_decide_eq_true hk⟩

/-- What is left of the arguments assigns `""` to their keys, and is left as it is. -/
theorem madeCmds_again {cmds cmds' : List (List UInt8)} (h : List.Forall₂ Cut cmds cmds')
    (cfg : CELLConfig) : cfg.madeCmds cmds' = .ok
      ({ cfg with kv := setAll cfg.kv (cmds.map fun cmd => ((assigned cmd).1, [])) }, cmds') := by
  induction h generalizing cfg with
  | nil => rfl
  | @cons cmd cmd' cmds cmds' hcut _ ih =>
    rw [CELLConfig.madeCmds, hcut.again.madeCmd_eq, Fallible.ok_bind]
    dsimp only
    rw [ih, List.map_cons]
    rfl

/-- `Init` takes the command line apart. It returns exactly if there is a first argument and
all have a terminator. Then the last argument with a key gives its value, and a key that no
argument has keeps what it was. The strings of the arguments are cut in place, so that a
second `Init` over them sets all their keys to `""`. -/
theorem config_init_iff (cfg : CELLConfig) (args : List (List UInt8)) :
    ((∃ x, cfg.init args = .ok x) ↔ args ≠ [] ∧ ∀ arg ∈ args, 0 ∈ arg) ∧
    ∀ cfg' args', cfg.init args = .ok (cfg', args') →
      (∀ k, cfg'.kv.find k =
        ((args.tail.map assigned).reverse.find? fun e => e.1 = k).or (cfg.kv.find k)) ∧
      args'.map List.length = args.map List.length ∧
      ∃ cfg'', cfg'.init args' = .ok (cfg'', args') ∧ ∀ k, cfg''.kv.find k =
        if ∃ arg ∈ args.tail, (assigned arg).1 = k then some (k, []) else cfg.kv.find k := by
  cases args with
  | nil =>
    refine ⟨iff_of_false (fun ⟨x, hx⟩ => by cases hx) fun h => h.1 rfl, fun cfg' args' h => ?_⟩
    cases h
  | cons exe cmds =>
    rw [CELLConfig.init]
    by_cases hexe : 0 ∈ exe
    swap
    · rw [cString_error hexe]
      refine ⟨iff_of_false (fun ⟨x, hx⟩ => by cases hx) fun h => ?_, fun cfg' args' h => ?_⟩
      · exact hexe (h.2 exe List.mem_cons_self)
      · cases h
    obtain ⟨str, rest, rfl, hstr⟩ := List.eq_append_cons_of_mem hexe
    rw [cString_eq hstr, Fallible.ok_bind]
    by_cases hcmds : ∀ cmd ∈ cmds, 0 ∈ cmd
    swap
    · obtain ⟨cmd, hcmd, h0⟩ := not_forall₂.mp hcmds
      rw [madeCmds_error ⟨cmd, hcmd, h0⟩]
      refine ⟨iff_of_false (fun ⟨x, hx⟩ => by cases hx) fun h => ?_, fun cfg' args' h => ?_⟩
      · exact h0 (h.2 cmd (List.mem_cons_of_mem _ hcmd))
      · cases h
    obtain ⟨cmds', hmade, hcut⟩ := madeCmds_eq hcmds { cfg with exePath := str }
    rw [hmade]
    refine ⟨iff_of_true ⟨_, rfl⟩ ⟨List.cons_ne_nil _ _, List.forall_mem_cons.mpr ⟨hexe, hcmds⟩⟩,
      fun cfg' args' h => ?_⟩
    obtain ⟨rfl, rfl⟩ := Prod.mk.inj (Except.ok.inj h)
    refine ⟨fun k => find_setAll _ _ k, ?_, ?_⟩
    · rw [List.map_cons, List.map_cons]
      refine congrArg _ (List.forall₂_eq_eq_eq ▸ ?_)
      exact List.forall₂_map_left_iff.mpr (List.forall₂_map_right_iff.mpr
        (hcut.flip.imp fun _ _ hc => hc.length_eq))
    · rw [CELLConfig.init, cString_eq hstr, Fallible.ok_bind, madeCmds_again hcut]
      refine ⟨_, rfl, fun k => ?_⟩
      dsimp only
      rw [find_setAll, find_setAll, List.tail_cons]
      by_cases hk : ∃ cmd ∈ cmds, (assigned cmd).1 = k
      · rw [if_pos hk, find_key_again hk, Option.some_or]
      · rw [if_neg hk, find_key_none hk, find_key_none hk, Option.none_or,
          Option.none_or]

/-- `a=1`, `b` and `a=2`, which is read again. -/
theorem config_init_iff_again : ∃ cfg' args' cfg'',
    CELLConfig.init ⟨[], .empty⟩ [[120, 0], [97, 61, 49, 0], [98, 0], [97, 61, 50, 0]] =
      .ok (cfg', args') ∧ cfg'.kv.find [97] = some ([97], [50]) ∧
    cfg'.init args' = .ok (cfg'', args') ∧ cfg''.kv.find [97] = some ([97], []) := by
  obtain ⟨hiff, hread⟩ := config_init_iff ⟨[], .empty⟩
    [[120, 0], [97, 61, 49, 0], [98, 0], [97, 61, 50, 0]]
  obtain ⟨⟨cfg', args'⟩, hinit⟩ := hiff.mpr (by decide)
  obtain ⟨hfind, -, cfg'', hagain, hempty⟩ := hread cfg' args' hinit
  exact ⟨cfg', args', cfg'', hinit, (hfind [97]).trans (by decide), hagain,
    (hempty [97]).trans (by decide)⟩

/-! ## Numbers -/

/-- The decimal digits of `n`. -/
def digits (n : ℕ) : List UInt8 :=
  if n < 10 then [UInt8.ofNat (48 + n)] else digits (n / 10) ++ [UInt8.ofNat (48 + n % 10)]

/-- The decimal representation of `z`. -/
def decimal (z : ℤ) : List UInt8 :=
  if z < 0 then 45 :: digits z.natAbs else digits z.natAbs

theorem toNat_digit {d : ℕ} (h : d < 10) : (UInt8.ofNat (48 + d)).toNat = 48 + d := by
  rw [UInt8.toNat_ofNat']
  omega

theorem isdigit_digit {d : ℕ} (h : d < 10) : isdigit (UInt8.ofNat (48 + d)) = true := by
  have hd := toNat_digit h
  rw [isdigit, Bool.and_eq_true, decide_eq_true_eq, decide_eq_true_eq, UInt8.le_iff_toNat_le,
    UInt8.le_iff_toNat_le, hd]
  exact ⟨Nat.le_add_right 48 d, show 48 + d ≤ 57 by omega⟩

theorem isdigit_digits (n : ℕ) : ∀ c ∈ digits n, isdigit c = true := by
  induction n using digits.induct with
  | case1 n hn =>
    rw [digits, if_pos hn]
    exact List.forall_mem_singleton.mpr (isdigit_digit hn)
  | case2 n hn ih =>
    rw [digits, if_neg hn]
    exact List.forall_mem_append.mpr
      ⟨ih, List.forall_mem_singleton.mpr (isdigit_digit (Nat.mod_lt n (by decide)))⟩

theorem ofDigits_digits (n : ℕ) : ofDigits (digits n) = n := by
  induction n using digits.induct with
  | case1 n hn =>
    rw [digits, if_pos hn, ofDigits, List.foldl_cons, List.foldl_nil, toNat_digit hn]
    omega
  | case2 n hn ih =>
    have hdigit := toNat_digit (Nat.mod_lt n (show 0 < 10 by decide))
    rw [digits, if_neg hn, ofDigits, List.foldl_append, ← ofDigits, ih, List.foldl_cons,
      List.foldl_nil, hdigit]
    omega

theorem digits_ne_nil (n : ℕ) : digits n ≠ [] := by
  rw [digits]
  split
  · exact List.cons_ne_nil _ _
  · exact List.append_ne_nil_of_right_ne_nil _ (List.cons_ne_nil _ _)

/-- A digit is neither a space nor a sign. -/
theorem takeSign_digits (n : ℕ) :
    takeSign ((digits n).dropWhile isspace) = (false, digits n) := by
  obtain ⟨c, cs, hcs⟩ := List.exists_cons_of_ne_nil (digits_ne_nil n)
  have hc := isdigit_digits n c (hcs ▸ List.mem_cons_self)
  rw [hcs]
  rw [isdigit, Bool.and_eq_true, decide_eq_true_eq, decide_eq_true_eq, UInt8.le_iff_toNat_le,
    UInt8.le_iff_toNat_le] at hc
  have h48 : 48 ≤ c.toNat := hc.1
  have hspace : ¬isspace c = true := by
    rw [isspace, Bool.or_eq_true, Bool.and_eq_true, decide_eq_true_eq, decide_eq_true_eq,
      decide_eq_true_eq, UInt8.le_iff_toNat_le, UInt8.le_iff_toNat_le]
    rintro (rfl | ⟨-, h13⟩)
    · exact absurd h48 (by decide)
    · exact absurd (h48.trans h13) (by decide)
  rw [List.dropWhile_cons_of_neg hspace, takeSign]
  · rintro s ⟨⟩
    exact absurd h48 (by decide)
  · rintro s ⟨⟩
    exact absurd h48 (by decide)

/-- An `int` is read back from its decimal representation. -/
theorem atoi_decimal {z : ℤ} (h : -2147483648 ≤ z) (h' : z < 2147483648) :
    atoi (decimal z) = some z := by
  have hread : takeSign ((decimal z).dropWhile isspace) = (decide (z < 0), digits z.natAbs) := by
    rw [decimal]
    split
    · rw [decide_eq_true ‹z < 0›, List.dropWhile_cons_of_neg (by decide)]
      rfl
    · rw [decide_eq_false ‹¬z < 0›, takeSign_digits]
  have hvalue : (if decide (z < 0) = true then -(z.natAbs : ℤ) else z.natAbs) = z := by
    split
    · have hneg := of_decide_eq_true ‹decide (z < 0) = true›
      omega
    · have hpos : ¬z < 0 := fun hneg => ‹¬decide (z < 0) = true› (decide_eq_true hneg)
      omega
  rw [atoi, hread]
  dsimp only
  rw [List.takeWhile_eq_self_iff.mpr (isdigit_digits z.natAbs), ofDigits_digits, hvalue,
    if_pos ⟨h, h'⟩]

/-- The argument `k=v`. -/
def argument (k v : List UInt8) : List UInt8 :=
  k ++ equalSign :: (v ++ [0])

/-- Settings are read back. If the arguments are `k=v` for keys without `=`, then `getStr`
gives the last value of a key, whatever is in it, and `getInt` the `int` it is the decimal
representation of. -/
theorem config_round_trip (cfg : CELLConfig) {exe : List UInt8} (hexe : 0 ∈ exe)
    {settings : List (List UInt8 × List UInt8)}
    (hsettings : ∀ e ∈ settings, equalSign ∉ e.1 ∧ 0 ∉ e.1 ∧ 0 ∉ e.2) :
    ∃ cfg' args', cfg.init (exe :: settings.map fun e => argument e.1 e.2) = .ok (cfg', args') ∧
      (∀ k, cfg'.hasKey k = (decide (∃ e ∈ settings, e.1 = k) || cfg.hasKey k)) ∧
      ∀ pre k v post, settings = pre ++ (k, v) :: post → (∀ e ∈ post, e.1 ≠ k) →
        (∀ dflt, (cfg'.getStr k dflt).1 = v) ∧
        ∀ z dflt, -2147483648 ≤ z → z < 2147483648 → v = decimal z →
          (cfg'.getInt k dflt).1 = some z := by
  have hassigned : (settings.map fun e => argument e.1 e.2).map assigned = settings := by
    rw [List.map_map]
    refine (List.map_congr_left fun e he => ?_).trans (List.map_id _)
    obtain ⟨hk, hk0, hv0⟩ := hsettings e he
    exact (@IsArg.pair _ _ [] hk hk0 hv0).assigned_eq
  have hterminated : ∀ arg ∈ settings.map fun e => argument e.1 e.2, 0 ∈ arg := by
    intro arg harg
    obtain ⟨e, -, rfl⟩ := List.mem_map.mp harg
    simp [argument]
  obtain ⟨str, rest, rfl, hstr⟩ := List.eq_append_cons_of_mem hexe
  obtain ⟨cmds', hmade, -⟩ := madeCmds_eq hterminated { cfg with exePath := str }
  rw [hassigned] at hmade
  have hfind : ∀ k, (setAll cfg.kv settings).find k =
      (settings.reverse.find? fun e => e.1 = k).or (cfg.kv.find k) :=
    fun k => find_setAll settings cfg.kv k
  refine ⟨⟨str, setAll cfg.kv settings⟩, (str ++ 0 :: rest) :: cmds', ?_, fun k => ?_,
    fun pre k v post hsplit hlast => ?_⟩
  · rw [CELLConfig.init, cString_eq hstr, Fallible.ok_bind, hmade]
    rfl
  · rw [CELLConfig.hasKey, CELLConfig.hasKey, hfind, Option.isSome_or]
    refine congrArg (· || _) (Bool.eq_iff_iff.mpr ?_)
    rw [List.find?_isSome, decide_eq_true_iff]
    simp only [List.mem_reverse, decide_eq_true_iff]
  · have hlastk : (setAll cfg.kv settings).find k = some (k, v) := by
      have hpost : (post.reverse.find? fun e => e.1 = k) = none := by
        refine List.find?_eq_none.mpr fun e he hk => ?_
        exact hlast e (List.mem_reverse.mp he) (of_decide_eq_true hk)
      rw [hfind, hsplit, List.reverse_append, List.reverse_cons, List.append_assoc,
        List.find?_append, hpost, Option.none_or, List.singleton_append,
        List.find?_cons_of_pos (by simp), Option.some_or]
    refine ⟨fun dflt => ?_, fun z dflt hz hz' hv => ?_⟩
    · rw [CELLConfig.getStr, hlastk]
    · rw [CELLConfig.getInt, hlastk, ← atoi_decimal hz hz', hv]

/-- `n=-12`. -/
theorem config_round_trip_one : ∃ cfg' args',
    CELLConfig.init ⟨[], .empty⟩ [[120, 0], argument [110] (decimal (-12))] = .ok (cfg', args') ∧
    (cfg'.getInt [110] 5).1 = some (-12) := by
  have hexe : (0 : UInt8) ∈ [120, 0] := by decide
  have hsettings : ∀ e ∈ [([110], decimal (-12))], equalSign ∉ e.1 ∧ 0 ∉ e.1 ∧ 0 ∉ e.2 := by
    decide +kernel
  obtain ⟨cfg', args', hinit, -, hread⟩ := config_round_trip ⟨[], .empty⟩ hexe hsettings
  exact ⟨cfg', args', hinit,
    (hread [] [110] _ [] rfl (List.forall_mem_nil _)).2 (-12) 5 (by decide) (by decide) rfl⟩

end CellNet
