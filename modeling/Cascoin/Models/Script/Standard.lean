import Cascoin.Models.Primitives.Script
import Cascoin.Models.Util.Destination
import Cascoin.Models.Rialto.Envelope

/-!
# Standard script templates

`Solver` (`script/standard.cpp`) names the kind of an output script and the data it
carries: pay to script hash by a test at fixed offsets, a witness program, an
`OP_RETURN` data output whose rest is push-only, and otherwise the first of the
templates pay to key, pay to key hash and bare multisig that the script follows opcode
by opcode. It reads scripts with `CScript::GetOp`, which returns the opcode at `pc`,
the data it pushes and moves `pc` past them.

`GetOp` reads back every push `CScript::operator<<` writes (`GetOp_pushData`). So the
script `GetScriptForDestination` builds for a destination is solved as that kind, and
`ExtractDestination` gives the destination back (`ExtractDestination_GetScriptForDestination`);
an `OP_RETURN` followed by pushes is a data output (`Solver_opReturn`).
-/

namespace Cascoin

/-- `OP_16`. -/
def OP_16 : UInt8 := 0x60

/-- `OP_CHECKMULTISIG`. -/
def OP_CHECKMULTISIG : UInt8 := 0xae

/-- `OP_SMALLINTEGER`, the template opcode for `OP_0` to `OP_16`. -/
def OP_SMALLINTEGER : UInt8 := 0xfa

/-- `OP_PUBKEYS`, the template opcode for a run of keys. -/
def OP_PUBKEYS : UInt8 := 0xfb

/-- `OP_PUBKEYHASH`, the template opcode for a 20-byte hash. -/
def OP_PUBKEYHASH : UInt8 := 0xfd

/-- `OP_PUBKEY`, the template opcode for a key. -/
def OP_PUBKEY : UInt8 := 0xfe

/-- `OP_INVALIDOPCODE`. -/
def OP_INVALIDOPCODE : UInt8 := 0xff

/-! ## Reading a script -/

/-- The size of a push opcode's operand and the bytes after it: the opcode itself below
`OP_PUSHDATA1`, else the one, two or four little-endian bytes that follow it; `none`
when those run past the end. -/
def CScript.pushSize (opcode : UInt8) (rest : CScript) : Option (Nat × CScript) :=
  if opcode < OP_PUSHDATA1 then some (opcode.toNat, rest)
  else
    let width := if opcode = OP_PUSHDATA1 then 1 else if opcode = OP_PUSHDATA2 then 2 else 4
    if rest.length < width then none else some (Bytes.leValue (rest.take width), rest.drop width)

/-- `CScript::GetOp2(pc, opcodeRet, &vchRet)` with `pc` at the front of `script`: whether it
returns true, the opcode, the data pushed, and the bytes from the `pc` it leaves. A read
that fails leaves `OP_INVALIDOPCODE`, no data, and `pc` past the bytes it read. -/
def CScript.GetOp (script : CScript) : Bool × UInt8 × List UInt8 × CScript :=
  match script with
  | [] => (false, OP_INVALIDOPCODE, [], [])
  | opcode :: rest =>
    if opcode ≤ OP_PUSHDATA4 then
      match CScript.pushSize opcode rest with
      | none => (false, OP_INVALIDOPCODE, [], rest)
      | some (nSize, rest) =>
        if rest.length < nSize then (false, OP_INVALIDOPCODE, [], rest)
        else (true, opcode, rest.take nSize, rest.drop nSize)
    else (true, opcode, [], rest)

/-- The size bytes come from the script. -/
theorem CScript.pushSize_length_le {opcode : UInt8} {rest after : CScript} {nSize : Nat}
    (h : CScript.pushSize opcode rest = some (nSize, after)) : after.length ≤ rest.length := by
  unfold CScript.pushSize at h
  dsimp only at h
  split_ifs at h <;> obtain ⟨-, rfl⟩ := Prod.mk.inj (Option.some.inj h) <;> simp

/-- The size of an `OP_PUSHDATA` push is read from the bytes of its width. -/
theorem CScript.pushSize_of_width (opcode : UInt8) (h : ¬ opcode < OP_PUSHDATA1)
    (lenBytes : List UInt8)
    (hlen : lenBytes.length =
      if opcode = OP_PUSHDATA1 then 1 else if opcode = OP_PUSHDATA2 then 2 else 4)
    (rest : CScript) :
    CScript.pushSize opcode (lenBytes ++ rest) = some (Bytes.leValue lenBytes, rest) := by
  unfold CScript.pushSize
  rw [if_neg h]
  dsimp only
  rw [← hlen, if_neg (by simp), List.take_left' rfl, List.drop_left' rfl]

/-- A read that succeeds moves `pc`. -/
theorem CScript.GetOp_length_lt {script rest : CScript} {opcode : UInt8} {vch : List UInt8}
    (h : CScript.GetOp script = (true, opcode, vch, rest)) : rest.length < script.length := by
  match script with
  | [] => simp [CScript.GetOp] at h
  | op :: tail =>
    simp only [CScript.GetOp] at h
    split_ifs at h with hpush
    · -- a push: its operand comes from the bytes after the size
      cases hs : CScript.pushSize op tail with
      | none => simp [hs] at h
      | some sz =>
        obtain ⟨nSize, after⟩ := sz
        have hafter := CScript.pushSize_length_le hs
        simp only [hs] at h
        split_ifs at h with hshort
        · simp at h
        have hrest : rest = after.drop nSize := (congrArg (fun t => t.2.2.2) h).symm
        rw [hrest, List.length_drop, List.length_cons]
        omega
    · cases h
      simp

/-- An opcode above `OP_PUSHDATA4` is read on its own. -/
theorem CScript.GetOp_opcode {opcode : UInt8} (hop : OP_PUSHDATA4 < opcode) (rest : CScript) :
    CScript.GetOp (opcode :: rest) = (true, opcode, [], rest) := by
  have hnot : ¬ opcode ≤ OP_PUSHDATA4 := by
    rw [UInt8.lt_iff_toNat_lt] at hop
    rw [UInt8.le_iff_toNat_le]
    omega
  simp [CScript.GetOp, hnot]

/-- A push whose size is read is read with its operand. -/
theorem CScript.GetOp_push {opcode : UInt8} (hop : opcode ≤ OP_PUSHDATA4) {lenBytes b rest : List UInt8}
    (hsize : CScript.pushSize opcode (lenBytes ++ (b ++ rest)) = some (b.length, b ++ rest)) :
    CScript.GetOp (opcode :: (lenBytes ++ (b ++ rest))) = (true, opcode, b, rest) := by
  simp only [CScript.GetOp, if_pos hop, hsize, List.length_append]
  rw [if_neg (by omega), List.take_left' rfl, List.drop_left' rfl]

/-- A direct push: the opcode is the length of the data. -/
theorem CScript.GetOp_directPush {n : UInt8} (b rest : List UInt8) (hn : n.toNat = b.length)
    (hlt : b.length < 0x4c) : CScript.GetOp (n :: (b ++ rest)) = (true, n, b, rest) := by
  have hpush : n ≤ OP_PUSHDATA4 := by
    rw [UInt8.le_iff_toNat_le, hn]
    simp [OP_PUSHDATA4]
    omega
  have hsmall : n < OP_PUSHDATA1 := by
    rw [UInt8.lt_iff_toNat_lt, hn]
    simp [OP_PUSHDATA1]
    omega
  have hsize : CScript.pushSize n ([] ++ (b ++ rest)) = some (b.length, b ++ rest) := by
    rw [CScript.pushSize, if_pos hsmall, hn, List.nil_append]
  exact CScript.GetOp_push hpush hsize

/-- `GetOp` reads back the push `script << b` writes: the data, with a push opcode. -/
theorem CScript.GetOp_pushData (b rest : List UInt8) (hb : b.length < 2 ^ 32) :
    ∃ opcode, opcode ≤ OP_PUSHDATA4 ∧
      CScript.GetOp (pushPrefix b.length ++ b ++ rest) = (true, opcode, b, rest) := by
  unfold pushPrefix
  split_ifs with h1 h2 h3
  · -- the length itself is the opcode
    have hop : (UInt8.ofNat b.length).toNat = b.length := by
      simp [OP_PUSHDATA1] at h1
      simp
      omega
    have hpush : UInt8.ofNat b.length ≤ OP_PUSHDATA4 := by
      rw [UInt8.le_iff_toNat_le, hop]
      simp [OP_PUSHDATA1] at h1
      simp [OP_PUSHDATA4]
      omega
    have hsmall : UInt8.ofNat b.length < OP_PUSHDATA1 := by
      rw [UInt8.lt_iff_toNat_lt, hop]
      exact h1
    refine ⟨UInt8.ofNat b.length, hpush, ?_⟩
    have hsize : CScript.pushSize (UInt8.ofNat b.length) ([] ++ (b ++ rest)) =
        some (b.length, b ++ rest) := by
      rw [CScript.pushSize, if_pos hsmall, hop, List.nil_append]
    exact CScript.GetOp_push hpush hsize
  · -- `OP_PUSHDATA1` and one length byte
    have hbyte : (UInt8.ofNat b.length).toNat = b.length := by
      simp
      omega
    have hsize := CScript.pushSize_of_width OP_PUSHDATA1 (by decide)
      [UInt8.ofNat b.length] (by simp) (b ++ rest)
    simp only [Bytes.leValue_cons, Bytes.leValue_nil, hbyte, mul_zero, add_zero] at hsize
    exact ⟨OP_PUSHDATA1, by decide, CScript.GetOp_push (by decide) hsize⟩
  · -- `OP_PUSHDATA2` and two little-endian length bytes
    have hsize := CScript.pushSize_of_width OP_PUSHDATA2 (by decide)
      (Bytes.leBytes b.length 2) (by simp; decide) (b ++ rest)
    rw [Bytes.leValue_leBytes, Nat.mod_eq_of_lt (by omega)] at hsize
    refine ⟨OP_PUSHDATA2, by decide, ?_⟩
    simp only [List.cons_append, List.append_assoc]
    exact CScript.GetOp_push (by decide) hsize
  · -- `OP_PUSHDATA4` and four little-endian length bytes
    have hsize := CScript.pushSize_of_width OP_PUSHDATA4 (by decide)
      (Bytes.leBytes b.length 4) (by simp; decide) (b ++ rest)
    rw [Bytes.leValue_leBytes, Nat.mod_eq_of_lt (by omega)] at hsize
    refine ⟨OP_PUSHDATA4, by decide, ?_⟩
    simp only [List.cons_append, List.append_assoc]
    exact CScript.GetOp_push (by decide) hsize

/-- `CScript::IsPushOnly(pc)`: every op from `pc` to the end is read and is at most
`OP_16`. -/
def CScript.IsPushOnly (script : CScript) : Bool :=
  if script = [] then true
  else
    match h : CScript.GetOp script with
    | (false, _, _, _) => false
    | (true, opcode, _, rest) => if opcode > OP_16 then false else CScript.IsPushOnly rest
termination_by script.length
decreasing_by exact CScript.GetOp_length_lt h

@[simp] theorem CScript.IsPushOnly_nil : CScript.IsPushOnly [] = true := by
  rw [CScript.IsPushOnly, if_pos rfl]

/-- A push in front leaves the question to the rest. -/
theorem CScript.IsPushOnly_pushData (b rest : List UInt8) (hb : b.length < 2 ^ 32) :
    CScript.IsPushOnly (pushPrefix b.length ++ b ++ rest) = CScript.IsPushOnly rest := by
  obtain ⟨opcode, hop, hget⟩ := CScript.GetOp_pushData b rest hb
  have hne : pushPrefix b.length ++ b ++ rest ≠ [] := by
    unfold pushPrefix
    split_ifs <;> simp
  have hsmall : ¬ opcode > OP_16 := by
    rw [UInt8.le_iff_toNat_le] at hop
    rw [gt_iff_lt, UInt8.lt_iff_toNat_lt]
    have h4 : OP_PUSHDATA4.toNat = 0x4e := rfl
    have h16 : OP_16.toNat = 0x60 := rfl
    omega
  rw [CScript.IsPushOnly, if_neg hne]
  split
  · rename_i h
    rw [hget] at h
    cases h
  · rename_i o v r h
    rw [hget] at h
    cases h
    rw [if_neg hsmall]

/-- `CScript::IsPayToScriptHash()`: `OP_HASH160 20 [20 bytes] OP_EQUAL`. -/
def CScript.IsPayToScriptHash (script : CScript) : Bool :=
  script.length == 23 && script.getD 0 0 == OP_HASH160 && script.getD 1 0 == 0x14 &&
    script.getD 22 0 == OP_EQUAL

section Checks

variable {ε : Type}

/-- `CScript::DecodeOP_N(opcode)`. -/
def DecodeOP_N (opcode : UInt8) : Checked ε Nat := do
  if opcode = OP_0 then return 0
  Checked.assert (OP_TRUE ≤ opcode ∧ opcode ≤ OP_16)
  return opcode.toNat - (OP_TRUE.toNat - 1)

/-- `CScript::EncodeOP_N(n)`. -/
def EncodeOP_N (n : Nat) : Checked ε UInt8 := do
  Checked.assert (n ≤ 16)
  if n = 0 then return OP_0
  return UInt8.ofNat (OP_TRUE.toNat + n - 1)

/-- `CScript::IsWitnessProgram(version, program)`: 4 to 42 bytes, a version opcode, then
one push of the rest. -/
def CScript.IsWitnessProgram (script : CScript) : Checked ε (Option (Nat × List UInt8)) := do
  if script.length < 4 ∨ script.length > 42 then return none
  if script.getD 0 0 ≠ OP_0 ∧ (script.getD 0 0 < OP_TRUE ∨ script.getD 0 0 > OP_16) then
    return none
  if (script.getD 1 0).toNat + 2 = script.length then
    return some (← DecodeOP_N (script.getD 0 0), script.drop 2)
  return none

/-! ## `Solver` -/

/-- The templates of `Solver`, in the order of the multimap's keys. -/
def solverTemplates : List (txnouttype × CScript) :=
  [(.TX_PUBKEY, [OP_PUBKEY, OP_CHECKSIG]),
    (.TX_PUBKEYHASH, [OP_DUP, OP_HASH160, OP_PUBKEYHASH, OP_EQUALVERIFY, OP_CHECKSIG]),
    (.TX_MULTISIG, [OP_SMALLINTEGER, OP_PUBKEYS, OP_SMALLINTEGER, OP_CHECKMULTISIG])]

/-- The `OP_PUBKEYS` loop: pushes of 33 to 65 bytes from `vch1` on become solutions. It
stops at the first other op, or with the values of a `GetOp` that fails. -/
def matchKeys (opcode1 : UInt8) (vch1 : List UInt8) (script1 : CScript) (sols : List (List UInt8)) :
    UInt8 × List UInt8 × CScript × List (List UInt8) :=
  if 33 ≤ vch1.length ∧ vch1.length ≤ 65 then
    match h : CScript.GetOp script1 with
    | (true, opcode1', vch1', script1') => matchKeys opcode1' vch1' script1' (sols ++ [vch1])
    | (false, opcode1', vch1', script1') => (opcode1', vch1', script1', sols ++ [vch1])
  else (opcode1, vch1, script1, sols)
termination_by script1.length
decreasing_by exact CScript.GetOp_length_lt h

/-- One comparison of the template scan: the script's op against the template's, with the
solutions so far; `none` where the scan breaks. -/
def templateOp (opcode1 : UInt8) (vch1 : List UInt8) (opcode2 : UInt8) (vch2 : List UInt8)
    (sols : List (List UInt8)) : Checked ε (Option (List (List UInt8))) := do
  if opcode2 = OP_PUBKEY then
    if vch1.length < 33 ∨ vch1.length > 65 then return none
    return some (sols ++ [vch1])
  else if opcode2 = OP_PUBKEYHASH then
    -- `sizeof(uint160)`
    if vch1.length ≠ 20 then return none
    return some (sols ++ [vch1])
  else if opcode2 = OP_SMALLINTEGER then
    if opcode1 = OP_0 ∨ (OP_TRUE ≤ opcode1 ∧ opcode1 ≤ OP_16) then
      let n ← DecodeOP_N opcode1
      return some (sols ++ [[UInt8.ofNat n]])
    else return none
  else if opcode1 ≠ opcode2 ∨ vch1 ≠ vch2 then return none
  else return some sols

/-- The scan of `script1` against one template `script2`: the solutions when both reach
their ends together. -/
def matchTemplate (script1 script2 : CScript) (sols : List (List UInt8)) :
    Checked ε (Option (List (List UInt8))) :=
  if script1 = [] ∧ script2 = [] then return some sols
  else
    match CScript.GetOp script1 with
    | (false, _, _, _) => return none
    | (true, opcode1, vch1, rest1) =>
      match h2 : CScript.GetOp script2 with
      | (false, _, _, _) => return none
      | (true, opcode2, vch2, rest2) =>
        if opcode2 = OP_PUBKEYS then
          -- the keys, then the template's next opcode falls through to the comparisons
          match matchKeys opcode1 vch1 rest1 sols with
          | (opcode1, vch1, rest1, sols) =>
            match h3 : CScript.GetOp rest2 with
            | (false, _, _, _) => return none
            | (true, opcode2, vch2, rest2') => do
              match ← templateOp opcode1 vch1 opcode2 vch2 sols with
              | none => return none
              | some sols => matchTemplate rest1 rest2' sols
        else do
          match ← templateOp opcode1 vch1 opcode2 vch2 sols with
          | none => return none
          | some sols => matchTemplate rest1 rest2 sols
termination_by script2.length
decreasing_by
  · exact (CScript.GetOp_length_lt h3).trans (CScript.GetOp_length_lt h2)
  · exact CScript.GetOp_length_lt h2

/-- The loop over the templates: the first that matches decides, and a multisig match
must have `1 ≤ m ≤ n` and `n` keys. -/
def scanTemplates (scriptPubKey : CScript) :
    List (txnouttype × CScript) → Checked ε (Option (txnouttype × List (List UInt8)))
  | [] => return none
  | (typeRet, script2) :: templates => do
    match ← matchTemplate scriptPubKey script2 [] with
    | none => scanTemplates scriptPubKey templates
    | some vSolutions =>
      if typeRet = .TX_MULTISIG then
        -- `vSolutionsRet.front()[0]` and `vSolutionsRet.back()[0]`
        let m := (← Checked.get (← Checked.get vSolutions 0) 0).toNat
        let n := (← Checked.get (← Checked.get vSolutions (vSolutions.length - 1)) 0).toNat
        if m < 1 ∨ n < 1 ∨ m > n ∨ vSolutions.length - 2 ≠ n then return none
      return some (typeRet, vSolutions)

/-- `Solver(scriptPubKey, typeRet, vSolutionsRet)`: the type and the solutions, `none`
when it returns false. -/
def Solver (scriptPubKey : CScript) : Checked ε (Option (txnouttype × List (List UInt8))) := do
  if CScript.IsPayToScriptHash scriptPubKey then
    return some (.TX_SCRIPTHASH, [(scriptPubKey.drop 2).take 20])
  match ← CScript.IsWitnessProgram scriptPubKey with
  | some (witnessversion, witnessprogram) =>
    if witnessversion = 0 ∧ witnessprogram.length = 20 then
      return some (.TX_WITNESS_V0_KEYHASH, [witnessprogram])
    if witnessversion = 0 ∧ witnessprogram.length = 32 then
      return some (.TX_WITNESS_V0_SCRIPTHASH, [witnessprogram])
    if witnessversion ≠ 0 then
      return some (.TX_WITNESS_UNKNOWN, [[UInt8.ofNat witnessversion], witnessprogram])
    return none
  | none =>
    -- a provably prunable data output
    if scriptPubKey.length ≥ 1 ∧ scriptPubKey.getD 0 0 = OP_RETURN ∧
        CScript.IsPushOnly (scriptPubKey.drop 1) then
      return some (.TX_NULL_DATA, [])
    scanTemplates scriptPubKey solverTemplates

/-! ## Destinations -/

/-- `GetScriptForDestination(dest)`, the `CScriptVisitor`. -/
def GetScriptForDestination : CTxDestination → Checked ε CScript
  | .CNoDestination => return []
  | .CKeyID keyID =>
    return pushOpcode (pushOpcode (pushData (pushOpcode (pushOpcode [] OP_DUP) OP_HASH160) keyID)
      OP_EQUALVERIFY) OP_CHECKSIG
  | .CScriptID scriptID => return pushOpcode (pushData (pushOpcode [] OP_HASH160) scriptID) OP_EQUAL
  | .WitnessV0KeyHash id => return pushData (pushOpcode [] OP_0) id
  | .WitnessV0ScriptHash id => return pushData (pushOpcode [] OP_0) id
  | .WitnessUnknown version program => do
    return pushData (pushOpcode [] (← EncodeOP_N version)) program

/-- `ExtractDestination(scriptPubKey, addressRet)`, with `CPubKey::GetID` the hash
`pubKeyID`: the destination, `none` when it returns false. `uint160(vch)` asserts that
the hash has 20 bytes. -/
def ExtractDestination (pubKeyID : List UInt8 → List UInt8) (scriptPubKey : CScript) :
    Checked ε (Option CTxDestination) := do
  match ← Solver scriptPubKey with
  | none => return none
  | some (whichType, vSolutions) =>
    match whichType with
    | .TX_PUBKEY =>
      let pubKey := CPubKey.ofBytes (← Checked.get vSolutions 0)
      -- `CPubKey::IsValid()`: a key whose header gives its size
      if pubKey = [] then return none
      return some (.CKeyID (pubKeyID pubKey))
    | .TX_PUBKEYHASH => do
      let hash ← Checked.get vSolutions 0
      Checked.assert (hash.length = 20)
      return some (.CKeyID hash)
    | .TX_SCRIPTHASH => do
      let hash ← Checked.get vSolutions 0
      Checked.assert (hash.length = 20)
      return some (.CScriptID hash)
    | .TX_WITNESS_V0_KEYHASH => return some (.WitnessV0KeyHash (← Checked.get vSolutions 0))
    | .TX_WITNESS_V0_SCRIPTHASH => return some (.WitnessV0ScriptHash (← Checked.get vSolutions 0))
    | .TX_WITNESS_UNKNOWN => do
      let version := (← Checked.get (← Checked.get vSolutions 0) 0).toNat
      return some (.WitnessUnknown version (← Checked.get vSolutions 1))
    | _ => return none

/-! ## The scan, step by step -/

theorem matchTemplate_nil (sols : List (List UInt8)) :
    (matchTemplate [] [] sols : Checked ε _) = .ok (some sols) := by
  rw [matchTemplate, if_pos ⟨rfl, rfl⟩]
  rfl

/-- One op of the script against an op of the template other than `OP_PUBKEYS`. -/
theorem matchTemplate_eq_bind {script1 script2 rest1 rest2 : CScript} {opcode1 opcode2 : UInt8}
    {vch1 vch2 : List UInt8} (sols : List (List UInt8))
    (h1 : CScript.GetOp script1 = (true, opcode1, vch1, rest1))
    (h2 : CScript.GetOp script2 = (true, opcode2, vch2, rest2)) (hkeys : opcode2 ≠ OP_PUBKEYS) :
    (matchTemplate script1 script2 sols : Checked ε _) =
      templateOp opcode1 vch1 opcode2 vch2 sols >>= fun r =>
        match r with
        | none => pure none
        | some sols => matchTemplate rest1 rest2 sols := by
  have hne : ¬(script1 = [] ∧ script2 = []) := by
    rintro ⟨rfl, -⟩
    simp [CScript.GetOp] at h1
  rw [matchTemplate, if_neg hne]
  split
  · rename_i h
    rw [h1] at h
    cases h
  · rename_i o1 v1 r1 h
    rw [h1] at h
    cases h
    split
    · rename_i h
      rw [h2] at h
      cases h
    · rename_i o2 v2 r2 h
      rw [h2] at h
      cases h
      rw [if_neg hkeys]

theorem matchTemplate_step {script1 script2 rest1 rest2 : CScript} {opcode1 opcode2 : UInt8}
    {vch1 vch2 : List UInt8} {sols sols' : List (List UInt8)}
    (h1 : CScript.GetOp script1 = (true, opcode1, vch1, rest1))
    (h2 : CScript.GetOp script2 = (true, opcode2, vch2, rest2)) (hkeys : opcode2 ≠ OP_PUBKEYS)
    (hop : (templateOp opcode1 vch1 opcode2 vch2 sols : Checked ε _) = .ok (some sols')) :
    (matchTemplate script1 script2 sols : Checked ε _) = matchTemplate rest1 rest2 sols' := by
  rw [matchTemplate_eq_bind sols h1 h2 hkeys, hop]
  rfl

theorem matchTemplate_break {script1 script2 rest1 rest2 : CScript} {opcode1 opcode2 : UInt8}
    {vch1 vch2 : List UInt8} {sols : List (List UInt8)}
    (h1 : CScript.GetOp script1 = (true, opcode1, vch1, rest1))
    (h2 : CScript.GetOp script2 = (true, opcode2, vch2, rest2)) (hkeys : opcode2 ≠ OP_PUBKEYS)
    (hop : (templateOp opcode1 vch1 opcode2 vch2 sols : Checked ε _) = .ok none) :
    (matchTemplate script1 script2 sols : Checked ε _) = .ok none := by
  rw [matchTemplate_eq_bind sols h1 h2 hkeys, hop]
  rfl

/-- An op of a template that is neither a key, a hash nor a small integer must be the
script's op, with no data. -/
theorem templateOp_same {opcode : UInt8} (hpk : opcode ≠ OP_PUBKEY) (hh : opcode ≠ OP_PUBKEYHASH)
    (hs : opcode ≠ OP_SMALLINTEGER) (sols : List (List UInt8)) :
    (templateOp opcode [] opcode [] sols : Checked ε _) = .ok (some sols) := by
  simp [templateOp, hpk, hh, hs]

/-- `OP_PUBKEYHASH` takes a push of 20 bytes as the solution. -/
theorem templateOp_pubKeyHash (opcode1 : UInt8) {vch1 : List UInt8} (hlen : vch1.length = 20)
    (sols : List (List UInt8)) :
    (templateOp opcode1 vch1 OP_PUBKEYHASH [] sols : Checked ε _) = .ok (some (sols ++ [vch1])) := by
  simp [templateOp, hlen, OP_PUBKEY, OP_PUBKEYHASH]

/-- A push of fewer than 33 bytes is no key. -/
theorem templateOp_pubKey_short (opcode1 : UInt8) {vch1 : List UInt8} (hlen : vch1.length < 33)
    (vch2 : List UInt8) (sols : List (List UInt8)) :
    (templateOp opcode1 vch1 OP_PUBKEY vch2 sols : Checked ε _) = .ok none := by
  simp [templateOp, hlen]

/-- A plain opcode: read on its own, and in a template matched only by itself. -/
def PlainOpcode (opcode : UInt8) : Prop :=
  OP_PUSHDATA4 < opcode ∧ opcode ≠ OP_PUBKEY ∧ opcode ≠ OP_PUBKEYHASH ∧ opcode ≠ OP_SMALLINTEGER ∧
    opcode ≠ OP_PUBKEYS

instance (opcode : UInt8) : Decidable (PlainOpcode opcode) :=
  inferInstanceAs (Decidable (_ ∧ _))

/-- The plain opcodes a template spells out are matched one by one. -/
theorem matchTemplate_opcodes (ops : List UInt8) (hops : ∀ o ∈ ops, PlainOpcode o)
    (rest1 rest2 : CScript) (sols : List (List UInt8)) :
    (matchTemplate (ops ++ rest1) (ops ++ rest2) sols : Checked ε _) = matchTemplate rest1 rest2 sols := by
  induction ops with
  | nil => rfl
  | cons o ops ih =>
    obtain ⟨hpush, hpk, hh, hs, hkeys⟩ := hops o (List.mem_cons_self ..)
    rw [List.cons_append, List.cons_append,
      matchTemplate_step (CScript.GetOp_opcode hpush _) (CScript.GetOp_opcode hpush _) hkeys
        (templateOp_same hpk hh hs sols),
      ih fun o' ho' => hops o' (List.mem_cons_of_mem _ ho')]

/-- A run of plain opcodes matches the same run in a template. -/
theorem matchTemplate_self (ops : List UInt8) (hops : ∀ o ∈ ops, PlainOpcode o)
    (sols : List (List UInt8)) : (matchTemplate ops ops sols : Checked ε _) = .ok (some sols) := by
  rw [← List.append_nil ops, matchTemplate_opcodes ops hops, matchTemplate_nil]

/-! ## The scripts of destinations -/

/-- The script of a key hash, as `GetScriptForDestination` writes it. -/
theorem GetScriptForDestination_keyID {keyID : List UInt8} (hlen : keyID.length = 20) :
    (GetScriptForDestination (.CKeyID keyID) : Checked ε CScript) =
      .ok ([OP_DUP, OP_HASH160] ++ (20 :: (keyID ++ [OP_EQUALVERIFY, OP_CHECKSIG]))) := by
  simp [GetScriptForDestination, pushOpcode, pushData, hlen, pushPrefix_of_lt (show 20 < 0x4c by decide)]

/-- `Solver` reads a key hash script as pay to key hash, with the hash. -/
theorem Solver_keyID {keyID : List UInt8} (hlen : keyID.length = 20) :
    (Solver ([OP_DUP, OP_HASH160] ++ (20 :: (keyID ++ [OP_EQUALVERIFY, OP_CHECKSIG]))) : Checked ε _) =
      .ok (some (.TX_PUBKEYHASH, [keyID])) := by
  set script := [OP_DUP, OP_HASH160] ++ (20 :: (keyID ++ [OP_EQUALVERIFY, OP_CHECKSIG])) with hscript
  have hsize : script.length = 25 := by simp [script, hlen]
  have hhead : script.getD 0 0 = OP_DUP := rfl
  -- neither a script hash, a witness program nor a data output: it starts with `OP_DUP`
  have hp2sh : CScript.IsPayToScriptHash script = false := by
    simp [CScript.IsPayToScriptHash, hsize]
  have hwit : (CScript.IsWitnessProgram script : Checked ε _) = .ok none := by
    have hnot : OP_DUP ≠ OP_0 ∧ (OP_DUP < OP_TRUE ∨ OP_DUP > OP_16) := by decide
    rw [CScript.IsWitnessProgram, hsize, hhead, if_neg (by decide), if_pos hnot]
    rfl
  have hdata : ¬(script.length ≥ 1 ∧ script.getD 0 0 = OP_RETURN ∧
      CScript.IsPushOnly (script.drop 1) = true) := by
    rintro ⟨-, hret, -⟩
    exact absurd (hhead.symm.trans hret) (by decide)
  -- the key template breaks at `OP_DUP`; the key hash template matches
  have hkey : (matchTemplate script [OP_PUBKEY, OP_CHECKSIG] [] : Checked ε _) = .ok none :=
    matchTemplate_break (CScript.GetOp_opcode (by decide) _) (CScript.GetOp_opcode (by decide) _)
      (by decide) (templateOp_pubKey_short _ (by simp) _ _)
  have hhash : (matchTemplate script [OP_DUP, OP_HASH160, OP_PUBKEYHASH, OP_EQUALVERIFY, OP_CHECKSIG] [] :
      Checked ε _) = .ok (some [keyID]) := by
    rw [hscript, show [OP_DUP, OP_HASH160, OP_PUBKEYHASH, OP_EQUALVERIFY, OP_CHECKSIG] =
      [OP_DUP, OP_HASH160] ++ [OP_PUBKEYHASH, OP_EQUALVERIFY, OP_CHECKSIG] from rfl,
      matchTemplate_opcodes [OP_DUP, OP_HASH160] (by decide +kernel),
      matchTemplate_step (CScript.GetOp_directPush keyID _ (by simp [hlen]) (by omega))
        (CScript.GetOp_opcode (by decide) _) (by decide) (templateOp_pubKeyHash _ hlen []),
      matchTemplate_self [OP_EQUALVERIFY, OP_CHECKSIG] (by decide +kernel)]
    rfl
  rw [Solver, hp2sh]
  simp only [Bool.false_eq_true, if_false, hwit, Checked.ok_bind, if_neg hdata]
  rw [solverTemplates, scanTemplates, hkey, Checked.ok_bind, scanTemplates, hhash, Checked.ok_bind]
  rfl

/-- A script hash script, as `GetScriptForDestination` writes it. -/
theorem GetScriptForDestination_scriptID {scriptID : List UInt8} (hlen : scriptID.length = 20) :
    (GetScriptForDestination (.CScriptID scriptID) : Checked ε CScript) =
      .ok (OP_HASH160 :: 20 :: (scriptID ++ [OP_EQUAL])) := by
  simp [GetScriptForDestination, pushOpcode, pushData, hlen, pushPrefix_of_lt (show 20 < 0x4c by decide)]

/-- A witness program: its version opcode, then a direct push of the program. -/
theorem pushData_pushOpcode_of_lt {opcode : UInt8} {program : List UInt8}
    (hlen : program.length < 0x4c) :
    pushData (pushOpcode [] opcode) program = opcode :: UInt8.ofNat program.length :: program := by
  simp [pushOpcode, pushData, pushPrefix_of_lt hlen]

/-- `EncodeOP_N` writes a version from one to sixteen as `OP_1` to `OP_16`, which
`DecodeOP_N` reads back. -/
theorem DecodeOP_N_EncodeOP_N {n : Nat} (h1 : 1 ≤ n) (h16 : n ≤ 16) :
    ∃ opcode, (EncodeOP_N n : Checked ε UInt8) = .ok opcode ∧ OP_TRUE ≤ opcode ∧ opcode ≤ OP_16 ∧
      (DecodeOP_N opcode : Checked ε Nat) = .ok n := by
  have htoNat : (UInt8.ofNat (OP_TRUE.toNat + n - 1)).toNat = 80 + n := by
    simp [OP_TRUE]
    omega
  have hlo : OP_TRUE ≤ UInt8.ofNat (OP_TRUE.toNat + n - 1) := by
    rw [UInt8.le_iff_toNat_le, htoNat]
    simp [OP_TRUE]
    omega
  have hhi : UInt8.ofNat (OP_TRUE.toNat + n - 1) ≤ OP_16 := by
    rw [UInt8.le_iff_toNat_le, htoNat]
    simp [OP_16]
    omega
  have hne : UInt8.ofNat (OP_TRUE.toNat + n - 1) ≠ OP_0 := by
    intro h
    have := congrArg UInt8.toNat h
    rw [htoNat] at this
    simp [OP_0] at this
  refine ⟨_, ?_, hlo, hhi, ?_⟩
  · simp [EncodeOP_N, h16, show n ≠ 0 by omega]
  · rw [DecodeOP_N, if_neg hne, decide_eq_true ⟨hlo, hhi⟩, Checked.assert_true, Checked.ok_bind, htoNat]
    simp [OP_TRUE]

/-- A version opcode followed by a direct push of two to forty bytes is a witness program. -/
theorem IsWitnessProgram_push {opcode : UInt8} {program : List UInt8}
    (hop : opcode = OP_0 ∨ OP_TRUE ≤ opcode ∧ opcode ≤ OP_16) (h2 : 2 ≤ program.length)
    (h40 : program.length ≤ 40) :
    (CScript.IsWitnessProgram (opcode :: UInt8.ofNat program.length :: program) : Checked ε _) =
      DecodeOP_N opcode >>= fun version => pure (some (version, program)) := by
  have hversion : ¬(opcode ≠ OP_0 ∧ (opcode < OP_TRUE ∨ opcode > OP_16)) := by
    rcases hop with h | ⟨hlo, hhi⟩
    · exact fun hc => hc.1 h
    · rw [UInt8.le_iff_toNat_le] at hlo hhi
      simp only [UInt8.lt_iff_toNat_lt, gt_iff_lt]
      omega
  have hsize : (UInt8.ofNat program.length).toNat + 2 = program.length + 2 := by
    simp
    omega
  rw [CScript.IsWitnessProgram, if_neg (by simp; omega)]
  simp only [List.getD_cons_zero, List.getD_cons_succ, List.length_cons, if_neg hversion, hsize,
    if_true, List.drop_succ_cons, List.drop_zero]

/-- `Solver` on a witness program: the branch for its version and size. -/
theorem Solver_witness {opcode : UInt8} {program : List UInt8} {version : Nat}
    (hop : opcode = OP_0 ∨ OP_TRUE ≤ opcode ∧ opcode ≤ OP_16) (h2 : 2 ≤ program.length)
    (h40 : program.length ≤ 40) (hdec : (DecodeOP_N opcode : Checked ε Nat) = .ok version) :
    (Solver (opcode :: UInt8.ofNat program.length :: program) : Checked ε _) =
      if version = 0 ∧ program.length = 20 then .ok (some (.TX_WITNESS_V0_KEYHASH, [program]))
      else if version = 0 ∧ program.length = 32 then
        .ok (some (.TX_WITNESS_V0_SCRIPTHASH, [program]))
      else if version ≠ 0 then
        .ok (some (.TX_WITNESS_UNKNOWN, [[UInt8.ofNat version], program]))
      else .ok none := by
  -- `OP_HASH160` is no version opcode, so the script is no script hash
  have hp2sh : CScript.IsPayToScriptHash (opcode :: UInt8.ofNat program.length :: program) = false := by
    have hne : opcode ≠ OP_HASH160 := by
      rintro rfl
      rcases hop with h | h
      · exact absurd h (by decide)
      · exact absurd h.2 (by decide)
    simp [CScript.IsPayToScriptHash, hne]
  rw [Solver, hp2sh]
  simp only [Bool.false_eq_true, if_false, IsWitnessProgram_push hop h2 h40, hdec, Checked.ok_bind,
    Checked.pure_eq]

/-- `Solver` reads a script hash script as pay to script hash, with the hash. -/
theorem Solver_scriptID {scriptID : List UInt8} (hlen : scriptID.length = 20) :
    (Solver (OP_HASH160 :: 20 :: (scriptID ++ [OP_EQUAL])) : Checked ε _) =
      .ok (some (.TX_SCRIPTHASH, [scriptID])) := by
  have hp2sh : CScript.IsPayToScriptHash (OP_HASH160 :: 20 :: (scriptID ++ [OP_EQUAL])) = true := by
    simp [CScript.IsPayToScriptHash, List.getD_eq_getElem?_getD, hlen]
  rw [Solver, hp2sh, if_pos rfl]
  simp [List.take_left' hlen]

/-- `DecodeOP_N` reads `OP_0` as version zero. -/
theorem DecodeOP_N_zero : (DecodeOP_N OP_0 : Checked ε Nat) = .ok 0 := by
  simp [DecodeOP_N]

/-- The destination of a key hash script is that key hash. -/
theorem ExtractDestination_keyID (pubKeyID : List UInt8 → List UInt8) {keyID : List UInt8}
    (hlen : keyID.length = 20) :
    (ExtractDestination pubKeyID
        ([OP_DUP, OP_HASH160] ++ (20 :: (keyID ++ [OP_EQUALVERIFY, OP_CHECKSIG]))) :
      Checked ε _) = .ok (some (.CKeyID keyID)) := by
  rw [ExtractDestination, Solver_keyID hlen]
  simp [hlen]

/-- `ExtractDestination` reads back every destination from the script `GetScriptForDestination`
writes for it, whatever the key hash function. -/
theorem ExtractDestination_GetScriptForDestination (pubKeyID : List UInt8 → List UInt8)
    {d : CTxDestination} (hd : d.Encodable = true) :
    ∃ script, (GetScriptForDestination d : Checked ε CScript) = .ok script ∧
      (ExtractDestination pubKeyID script : Checked ε _) = .ok (some d) := by
  cases d with
  | CNoDestination => exact absurd hd (by decide)
  | CKeyID keyID =>
    have hlen : keyID.length = 20 := by simpa [CTxDestination.Encodable] using hd
    exact ⟨_, GetScriptForDestination_keyID hlen, ExtractDestination_keyID pubKeyID hlen⟩
  | CScriptID scriptID =>
    have hlen : scriptID.length = 20 := by simpa [CTxDestination.Encodable] using hd
    refine ⟨_, GetScriptForDestination_scriptID hlen, ?_⟩
    rw [ExtractDestination, Solver_scriptID hlen]
    simp [hlen]
  | WitnessV0KeyHash id =>
    have hlen : id.length = 20 := by simpa [CTxDestination.Encodable] using hd
    refine ⟨OP_0 :: UInt8.ofNat id.length :: id, by simp only [GetScriptForDestination,
      Checked.pure_eq, pushData_pushOpcode_of_lt (show id.length < 0x4c by omega)], ?_⟩
    rw [ExtractDestination, Solver_witness (.inl rfl) (by omega) (by omega) DecodeOP_N_zero]
    simp [hlen]
  | WitnessV0ScriptHash id =>
    have hlen : id.length = 32 := by simpa [CTxDestination.Encodable] using hd
    refine ⟨OP_0 :: UInt8.ofNat id.length :: id, by simp only [GetScriptForDestination,
      Checked.pure_eq, pushData_pushOpcode_of_lt (show id.length < 0x4c by omega)], ?_⟩
    rw [ExtractDestination, Solver_witness (.inl rfl) (by omega) (by omega) DecodeOP_N_zero]
    simp [hlen]
  | WitnessUnknown version program =>
    have h : 1 ≤ version ∧ version ≤ 16 ∧ 2 ≤ program.length ∧ program.length ≤ 40 := by
      simpa [CTxDestination.Encodable, and_assoc] using hd
    obtain ⟨h1, h16, h2, h40⟩ := h
    obtain ⟨opcode, henc, hlo, hhi, hdec⟩ := @DecodeOP_N_EncodeOP_N ε _ h1 h16
    refine ⟨opcode :: UInt8.ofNat program.length :: program, by simp only [GetScriptForDestination,
      henc, Checked.ok_bind, Checked.pure_eq,
      pushData_pushOpcode_of_lt (show program.length < 0x4c by omega)], ?_⟩
    rw [ExtractDestination, Solver_witness (.inr ⟨hlo, hhi⟩) h2 h40 hdec]
    simp [show version ≠ 0 by omega]
    omega

/-- A script whose first opcode lies outside `OP_0` and `OP_1` to `OP_16` is no witness program. -/
theorem IsWitnessProgram_of_head (opcode : UInt8) (rest : CScript) (h0 : opcode ≠ OP_0)
    (hop : opcode < OP_TRUE ∨ opcode > OP_16) :
    (CScript.IsWitnessProgram (opcode :: rest) : Checked ε _) = .ok none := by
  rw [CScript.IsWitnessProgram]
  simp only [List.getD_cons_zero]
  by_cases hlen : (opcode :: rest).length < 4 ∨ (opcode :: rest).length > 42
  · rw [if_pos hlen]
    rfl
  · rw [if_neg hlen, if_pos ⟨h0, hop⟩]
    rfl

/-- A data output: `OP_RETURN` followed by pushes only is `TX_NULL_DATA`, whatever it carries. -/
theorem Solver_opReturn {rest : CScript} (h : CScript.IsPushOnly rest = true) :
    (Solver (OP_RETURN :: rest) : Checked ε _) = .ok (some (.TX_NULL_DATA, [])) := by
  have hp2sh : CScript.IsPayToScriptHash (OP_RETURN :: rest) = false := by
    simp [CScript.IsPayToScriptHash, show OP_RETURN ≠ OP_HASH160 by decide]
  have hwit := @IsWitnessProgram_of_head ε OP_RETURN rest (by decide) (.inr (by decide))
  have hdata : (OP_RETURN :: rest).length ≥ 1 ∧ (OP_RETURN :: rest).getD 0 0 = OP_RETURN ∧
      CScript.IsPushOnly ((OP_RETURN :: rest).drop 1) = true := ⟨by simp, rfl, h⟩
  rw [Solver, hp2sh]
  simp only [Bool.false_eq_true, if_false, hwit, Checked.ok_bind, if_pos hdata]
  rfl

end Checks

/-- `OP_RETURN << data`, the data output a wallet writes, is `TX_NULL_DATA`. -/
theorem Solver_dataOutput {data : List UInt8} (hb : data.length < 2 ^ 32) :
    (Solver (OP_RETURN :: (pushPrefix data.length ++ data)) : Checked ε _) =
      .ok (some (.TX_NULL_DATA, [])) := by
  have hpush := CScript.IsPushOnly_pushData data [] hb
  rw [List.append_nil] at hpush
  exact Solver_opReturn (hpush.trans CScript.IsPushOnly_nil)

/-! ## The environment with these scripts -/

/-- The environment whose `GetScriptForDestination` and `ExtractDestination` are the ones of
this module. A fault of either, which the C++ code would meet as a failed assertion or an
out-of-range read, reads as the empty script or as no destination. -/
def ChainEnv.withStandard (env : ChainEnv) : ChainEnv :=
  { env with
    scriptForDestination := fun d =>
      match (GetScriptForDestination d : Checked Unit CScript) with
      | .ok script => script
      | .error _ => []
    extractDestination := fun script =>
      match (ExtractDestination env.pubKeyID script : Checked Unit _) with
      | .ok d => d
      | .error _ => none }

/-- In that environment the destination of the script of a destination is that destination. -/
theorem ChainEnv.withStandard_extractDestination (env : ChainEnv) {d : CTxDestination}
    (hd : d.Encodable = true) :
    env.withStandard.extractDestination (env.withStandard.scriptForDestination d) = some d := by
  obtain ⟨script, hs, he⟩ := @ExtractDestination_GetScriptForDestination Unit env.pubKeyID _ hd
  simp only [ChainEnv.withStandard, hs, he]

end Cascoin
