import BinlogCodec.Io.Read

namespace BinlogCodec

/-! Status variables of a query event: a block of entries, each a key byte and a value whose
length the key's own rule gives. `StatusVarsIterator` frames the entries one at a time behind
a cursor and gives up at the first it cannot frame; `StatusVar.get_value` parses one framed
value on demand. -/

/-- Binlog query event status vars keys, `#[repr(u8)]` from `Flags2 = 0` on. -/
inductive StatusVarKey where
  | flags2
  | sqlMode
  | catalog
  | autoIncrement
  | charset
  | timeZone
  | catalogNz
  | lcTimeNames
  | charsetDatabase
  | tableMapForUpdate
  | masterDataWritten
  | invoker
  | updatedDbNames
  | microseconds
  | commitTs
  | commitTs2
  | explicitDefaultsForTimestamp
  | ddlLoggedWithXid
  | defaultCollationForUtf8mb4
  | sqlRequirePrimaryKey
  | defaultTableEncryption
  deriving DecidableEq, Repr

namespace StatusVarKey

/-- `key as u8`. -/
def toU8 : StatusVarKey → UInt8
  | flags2 => 0
  | sqlMode => 1
  | catalog => 2
  | autoIncrement => 3
  | charset => 4
  | timeZone => 5
  | catalogNz => 6
  | lcTimeNames => 7
  | charsetDatabase => 8
  | tableMapForUpdate => 9
  | masterDataWritten => 10
  | invoker => 11
  | updatedDbNames => 12
  | microseconds => 13
  | commitTs => 14
  | commitTs2 => 15
  | explicitDefaultsForTimestamp => 16
  | ddlLoggedWithXid => 17
  | defaultCollationForUtf8mb4 => 18
  | sqlRequirePrimaryKey => 19
  | defaultTableEncryption => 20

def tryFrom (value : UInt8) : Except UInt8 StatusVarKey :=
  match value.toNat with
  | 0 => .ok flags2
  | 1 => .ok sqlMode
  | 2 => .ok catalog
  | 3 => .ok autoIncrement
  | 4 => .ok charset
  | 5 => .ok timeZone
  | 6 => .ok catalogNz
  | 7 => .ok lcTimeNames
  | 8 => .ok charsetDatabase
  | 9 => .ok tableMapForUpdate
  | 10 => .ok masterDataWritten
  | 11 => .ok invoker
  | 12 => .ok updatedDbNames
  | 13 => .ok microseconds
  | 14 => .ok commitTs
  | 15 => .ok commitTs2
  | 16 => .ok explicitDefaultsForTimestamp
  | 17 => .ok ddlLoggedWithXid
  | 18 => .ok defaultCollationForUtf8mb4
  | 19 => .ok sqlRequirePrimaryKey
  | 20 => .ok defaultTableEncryption
  | _ => .error value

@[simp] theorem tryFrom_toU8 (key : StatusVarKey) : tryFrom key.toU8 = .ok key := by
  cases key <;> rfl

theorem toU8_of_tryFrom {value : UInt8} {key : StatusVarKey} (h : tryFrom value = .ok key) :
    key.toU8 = value := by
  have hall : ∀ m < 21, (tryFrom (UInt8.ofNat m)).toOption.all (·.toU8 = UInt8.ofNat m) := by
    decide
  rcases Nat.lt_or_ge value.toNat 21 with hn | hn
  · simpa [UInt8.ofNat_toNat_eq, h, Except.toOption] using hall value.toNat hn
  · obtain ⟨⟨n, hlt⟩⟩ := value
    obtain ⟨k, rfl⟩ := Nat.exists_eq_add_of_le' hn
    cases h

end StatusVarKey

/-- Raw status variable: its key and the bytes of its value. -/
structure StatusVar where
  key : StatusVarKey
  value : List UInt8
  deriving DecidableEq, Repr

/-- Iterator over status vars of a `QueryEvent`: the block and a cursor into it. -/
structure StatusVarsIterator where
  pos : Nat
  statusVars : List UInt8
  deriving DecidableEq, Repr

/-- `while *get(p)? != 0x00 { p += 1 }`, and `iter().position(|x| *x == 0)`: the number of
bytes before the first NUL, `None` if there is none. -/
def nulPosition : List UInt8 → Option Nat
  | [] => none
  | b :: bs => if b = 0 then some 0 else (· + 1) <$> nulPosition bs

namespace StatusVarsIterator

def new (statusVars : List UInt8) : StatusVarsIterator := ⟨0, statusVars⟩

/-- `get_var!(suffix_len)`: a length byte at `pos`, that many bytes, and `suffixLen` more. -/
def getVar (s : List UInt8) (pos suffixLen : Nat) : Option Nat :=
  (fun len : UInt8 => 1 + len.toNat + suffixLen) <$> s[pos]?

/-- The `Invoker` arm: a user length byte at `pos`, and a host length byte after the user. -/
def invokerLen (s : List UInt8) (pos : Nat) : Option Nat := do
  let userLen ← s[pos]?
  let hostLen ← s[pos + 1 + userLen.toNat]?
  pure (1 + userLen.toNat + 1 + hostLen.toNat)

/-- The loop of the `UpdatedDbNames` arm: `count` more names, each scanned to its NUL from
`pos + total`, its bytes and the NUL added to `total`. -/
def scanNames (s : List UInt8) (pos : Nat) : Nat → Nat → Option Nat
  | 0, total => some total
  | count + 1, total => do
      let len ← nulPosition (s.drop (pos + total))
      scanNames s pos count (total + len + 1)

/-- The `UpdatedDbNames` arm: a count byte at `pos`, then that many NUL-terminated names. -/
def updatedDbNamesLen (s : List UInt8) (pos : Nat) : Option Nat := do
  let count ← s[pos]?
  scanNames s pos count.toNat 1

/-- The length `next` hands to `get_fixed!` for a value of `key` at `pos`: a fixed length, or
one read from length bytes, `None` where `next` returns early because such a byte is past the
end. -/
def valueLen (s : List UInt8) (pos : Nat) : StatusVarKey → Option Nat
  | .flags2 => some 4
  | .sqlMode => some 8
  | .catalog => getVar s pos 1
  | .autoIncrement => some 4
  | .charset => some 6
  | .timeZone => getVar s pos 0
  | .catalogNz => getVar s pos 0
  | .lcTimeNames => some 2
  | .charsetDatabase => some 2
  | .tableMapForUpdate => some 8
  | .masterDataWritten => some 4
  | .invoker => invokerLen s pos
  | .updatedDbNames => updatedDbNamesLen s pos
  | .microseconds => some 3
  | .commitTs => some 0
  | .commitTs2 => some 0
  | .explicitDefaultsForTimestamp => some 1
  | .ddlLoggedWithXid => some 8
  | .defaultCollationForUtf8mb4 => some 2
  | .sqlRequirePrimaryKey => some 1
  | .defaultTableEncryption => some 1

/-- `get_fixed!(len)`: the cursor moves `len` bytes on, and the bytes it passed over are the
value if they lie in the block. -/
def getFixed (it : StatusVarsIterator) (len : Nat) : Option (List UInt8) × StatusVarsIterator :=
  let pos := it.pos + len
  (sliceGet it.statusVars (pos - len) pos, { it with pos })

/-- `Iterator::next`: the key byte at the cursor, then its value. An early return leaves the
cursor where it stands: on the key if it is past the end or unknown, after the key if a length
byte is missing, and past the value if the value runs over the end. -/
def next (it : StatusVarsIterator) : Option StatusVar × StatusVarsIterator :=
  match it.statusVars[it.pos]? with
  | none => (none, it)
  | some b =>
    match StatusVarKey.tryFrom b with
    | .error _ => (none, it)
    | .ok key =>
      let it := { it with pos := it.pos + 1 }
      match valueLen it.statusVars it.pos key with
      | none => (none, it)
      | some len => ((getFixed it len).1.map (StatusVar.mk key), (getFixed it len).2)

/-- The items of the first `fuel` calls of `next`, up to its first `None`. -/
def takeItems : Nat → StatusVarsIterator → List StatusVar
  | 0, _ => []
  | fuel + 1, it =>
    match next it with
    | (some v, it') => v :: takeItems fuel it'
    | (none, _) => []

/-- The items the iterator yields before its first `None`. Each moves the cursor forward and
leaves it inside the block, so `statusVars.length + 1` calls reach that `None`. -/
def items (it : StatusVarsIterator) : List StatusVar := takeItems (it.statusVars.length + 1) it

end StatusVarsIterator

/-! The grammar of a block, as the length rules of its entries state it: an entry is a known
key byte and a value its key's rule frames, and the iterator is meant to yield the longest run
of entries the block starts with. -/

/-- The length rules of the entries. -/
inductive LengthRule where
  /-- exactly `n` bytes -/
  | fixed (n : Nat)
  /-- a length byte, that many bytes, then `suffixLen` bytes more -/
  | lengthPrefixed (suffixLen : Nat)
  /-- a user length byte and the user, then a host length byte and the host -/
  | userHost
  /-- a count byte, then that many NUL-terminated names -/
  | nulTerminatedNames

/-- Each key's rule: Flags2 4, SqlMode 8, Catalog 1 + len + 1, AutoIncrement 4, Charset 6,
TimeZone and CatalogNz 1 + len, LcTimeNames and CharsetDatabase 2, TableMapForUpdate 8,
MasterDataWritten 4, Invoker 1 + user_len + 1 + host_len, UpdatedDbNames 1 and the names,
Microseconds 3, CommitTs and CommitTs2 0, ExplicitDefaultsForTimestamp 1, DdlLoggedWithXid 8,
DefaultCollationForUtf8mb4 2, SqlRequirePrimaryKey and DefaultTableEncryption 1. -/
def StatusVarKey.lengthRule : StatusVarKey → LengthRule
  | .flags2 => .fixed 4
  | .sqlMode => .fixed 8
  | .catalog => .lengthPrefixed 1
  | .autoIncrement => .fixed 4
  | .charset => .fixed 6
  | .timeZone => .lengthPrefixed 0
  | .catalogNz => .lengthPrefixed 0
  | .lcTimeNames => .fixed 2
  | .charsetDatabase => .fixed 2
  | .tableMapForUpdate => .fixed 8
  | .masterDataWritten => .fixed 4
  | .invoker => .userHost
  | .updatedDbNames => .nulTerminatedNames
  | .microseconds => .fixed 3
  | .commitTs => .fixed 0
  | .commitTs2 => .fixed 0
  | .explicitDefaultsForTimestamp => .fixed 1
  | .ddlLoggedWithXid => .fixed 8
  | .defaultCollationForUtf8mb4 => .fixed 2
  | .sqlRequirePrimaryKey => .fixed 1
  | .defaultTableEncryption => .fixed 1

/-- The values a rule frames. -/
def LengthRule.Frames : LengthRule → List UInt8 → Prop
  | .fixed n, value => value.length = n
  | .lengthPrefixed suffixLen, value =>
      ∃ len rest, value = len :: rest ∧ rest.length = len.toNat + suffixLen
  | .userHost, value => ∃ userLen user hostLen host,
      value = userLen :: user ++ hostLen :: host ∧ user.length = userLen.toNat ∧
        host.length = hostLen.toNat
  | .nulTerminatedNames, value => ∃ (count : UInt8) (names : List (List UInt8)),
      value = count :: names.flatMap (· ++ [0]) ∧ names.length = count.toNat ∧
        ∀ name ∈ names, (0 : UInt8) ∉ name

/-- An entry of the block: the key byte, then the value. -/
def StatusVar.encode (v : StatusVar) : List UInt8 := v.key.toU8 :: v.value

@[simp] theorem StatusVar.length_encode (v : StatusVar) : v.encode.length = v.value.length + 1 :=
  rfl

/-- `s` starts with the entries `vs`, in order, each value framed by its key's rule. -/
def FramesPrefix (s : List UInt8) (vs : List StatusVar) : Prop :=
  (∀ v ∈ vs, v.key.lengthRule.Frames v.value) ∧ vs.flatMap StatusVar.encode <+: s

/-! Each rule frames a value exactly where `next` does: the length `next` computes for a key
is the length of the value the key's rule frames there, and the bytes that length covers are
framed by the rule. -/

theorem nulPosition_append {name rest : List UInt8} (h : (0 : UInt8) ∉ name) :
    nulPosition (name ++ 0 :: rest) = some name.length := by
  induction name with
  | nil => simp [nulPosition]
  | cons b name ih =>
      simp only [List.mem_cons, not_or] at h
      simp [nulPosition, Ne.symm h.1, ih h.2]

theorem nulPosition_eq_some {bs : List UInt8} {n : Nat} (h : nulPosition bs = some n) :
    ∃ name rest, bs = name ++ 0 :: rest ∧ name.length = n ∧ (0 : UInt8) ∉ name := by
  induction bs generalizing n with
  | nil => cases h
  | cons b bs ih =>
      unfold nulPosition at h
      split_ifs at h with hb
      · cases h
        exact ⟨[], bs, by simp [hb], rfl, by simp⟩
      · obtain ⟨m, hm, rfl⟩ := Option.map_eq_some'.mp h
        obtain ⟨name, rest, rfl, rfl, hname⟩ := ih hm
        exact ⟨b :: name, rest, rfl, rfl, by simp [Ne.symm hb, hname]⟩

namespace StatusVarsIterator

/-- The length computation of `next` under each rule. -/
def ruleLen (s : List UInt8) (pos : Nat) : LengthRule → Option Nat
  | .fixed n => some n
  | .lengthPrefixed suffixLen => getVar s pos suffixLen
  | .userHost => invokerLen s pos
  | .nulTerminatedNames => updatedDbNamesLen s pos

/-- `next` computes each key's value length by its key's rule. -/
theorem valueLen_eq_ruleLen (s : List UInt8) (pos : Nat) (key : StatusVarKey) :
    valueLen s pos key = ruleLen s pos key.lengthRule := by
  cases key <;> rfl

theorem scanNames_drop (s : List UInt8) (pos count total : Nat) :
    scanNames s pos count total = scanNames (s.drop pos) 0 count total := by
  induction count generalizing total with
  | zero => rfl
  | succ count ih => simp only [scanNames, List.drop_drop, Nat.zero_add, ih]

/-- The length computations read the block only from `pos` on. -/
theorem ruleLen_drop (s : List UInt8) (pos : Nat) (r : LengthRule) :
    ruleLen s pos r = ruleLen (s.drop pos) 0 r := by
  cases r <;>
    simp only [ruleLen, getVar, invokerLen, updatedDbNamesLen, List.getElem?_drop, Nat.add_zero,
      Nat.zero_add, Nat.add_assoc, scanNames_drop s pos]

/-- The names a successful scan passed over: `count` NUL-terminated names from `pos + total`. -/
theorem scanNames_eq_some {s : List UInt8} {pos count total n : Nat}
    (h : scanNames s pos count total = some n) :
    ∃ names : List (List UInt8), names.length = count ∧ (∀ name ∈ names, (0 : UInt8) ∉ name) ∧
      names.flatMap (· ++ [0]) <+: s.drop (pos + total) ∧
      n = total + (names.flatMap (· ++ [0])).length := by
  induction count generalizing total with
  | zero =>
      cases h
      exact ⟨[], rfl, by simp, List.nil_prefix, by simp⟩
  | succ count ih =>
      obtain ⟨len, hlen, hrest⟩ := Option.bind_eq_some.mp h
      obtain ⟨names, rfl, hnul, hpre, rfl⟩ := ih hrest
      obtain ⟨name, rest, hsplit, rfl, hname⟩ := nulPosition_eq_some hlen
      have hdrop : s.drop (pos + (total + name.length + 1)) = rest := by
        rw [show pos + (total + name.length + 1) = pos + total + (name.length + 1) by omega,
          ← List.drop_drop, hsplit, List.append_cons, List.drop_left' (by simp)]
      refine ⟨name :: names, rfl, List.forall_mem_cons.mpr ⟨hname, hnul⟩, ?_, ?_⟩
      swap
      · rw [List.flatMap_cons, List.length_append, List.length_append, List.length_singleton]
        omega
      rw [hdrop] at hpre
      rw [List.flatMap_cons, hsplit, List.append_assoc, List.singleton_append]
      exact (List.prefix_append_right_inj name).mpr ((List.prefix_cons_inj 0).mpr hpre)

/-- A scan over `count` NUL-terminated names passes over exactly those names. -/
theorem scanNames_of_names {s : List UInt8} {pos total : Nat} {names : List (List UInt8)}
    (hnul : ∀ name ∈ names, (0 : UInt8) ∉ name) (h : names.flatMap (· ++ [0]) <+: s.drop (pos + total)) :
    scanNames s pos names.length total = some (total + (names.flatMap (· ++ [0])).length) := by
  induction names generalizing total with
  | nil => simp [scanNames]
  | cons name names ih =>
      obtain ⟨more, hmore⟩ := h
      have hsplit : s.drop (pos + total) = name ++ 0 :: (names.flatMap (· ++ [0]) ++ more) := by
        rw [← hmore]
        simp
      have hdrop : s.drop (pos + (total + name.length + 1)) = names.flatMap (· ++ [0]) ++ more := by
        rw [show pos + (total + name.length + 1) = pos + total + (name.length + 1) by omega,
          ← List.drop_drop, hsplit, List.append_cons, List.drop_left' (by simp)]
      simp only [scanNames, List.length_cons, hsplit,
        nulPosition_append (hnul name (List.mem_cons_self _ _)), Option.bind_eq_bind,
        Option.some_bind]
      rw [ih (fun n hn => hnul n (List.mem_cons_of_mem _ hn)) ⟨more, hdrop.symm⟩,
        List.flatMap_cons, List.length_append, List.length_append, List.length_singleton]
      congr 1
      omega

/-- The length `next` computes for a user and a host: both length bytes are in the block. -/
theorem invokerLen_cons_eq_some {userLen : UInt8} {t : List UInt8} {n : Nat}
    (h : invokerLen (userLen :: t) 0 = some n) :
    ∃ hostLen, t[userLen.toNat]? = some hostLen ∧ n = 1 + userLen.toNat + 1 + hostLen.toNat := by
  simp only [invokerLen, List.getElem?_cons_zero, Option.bind_eq_bind, Option.some_bind,
    show 0 + 1 + userLen.toNat = userLen.toNat + 1 by omega, List.getElem?_cons_succ,
    Option.bind_eq_some, Option.pure_def, Option.some.injEq] at h
  obtain ⟨hostLen, hhost, rfl⟩ := h
  exact ⟨hostLen, hhost, by omega⟩

/-- The bytes the length computed for a rule covers are framed by the rule. -/
theorem frames_of_ruleLen {t : List UInt8} {r : LengthRule} {n : Nat}
    (h : ruleLen t 0 r = some n) (hn : n ≤ t.length) : r.Frames (t.take n) := by
  cases r with
  | fixed m =>
      cases h
      simp [LengthRule.Frames, hn]
  | lengthPrefixed suffixLen =>
      cases t with
      | nil => cases h
      | cons len t =>
          simp only [ruleLen, getVar, List.getElem?_cons_zero, Option.map_eq_map, Option.map_some',
            Option.some.injEq] at h
          subst h
          refine ⟨len, t.take (len.toNat + suffixLen), ?_, by simp at hn ⊢; omega⟩
          rw [show 1 + len.toNat + suffixLen = len.toNat + suffixLen + 1 by omega,
            List.take_succ_cons]
  | userHost =>
      cases t with
      | nil => cases h
      | cons userLen t =>
          obtain ⟨hostLen, hhost, rfl⟩ := invokerLen_cons_eq_some h
          obtain ⟨hlt, hget⟩ := List.getElem?_eq_some_iff.mp hhost
          refine ⟨userLen, t.take userLen.toNat, hostLen,
            (t.drop (userLen.toNat + 1)).take hostLen.toNat, ?_, by simp; omega,
            by simp at hn ⊢; omega⟩
          rw [show 1 + userLen.toNat + 1 + hostLen.toNat =
              userLen.toNat + (hostLen.toNat + 1) + 1 by omega,
            List.take_succ_cons, List.take_add, List.drop_eq_getElem_cons hlt, hget,
            List.take_succ_cons, List.cons_append]
  | nulTerminatedNames =>
      cases t with
      | nil => cases h
      | cons count t =>
          simp only [ruleLen, updatedDbNamesLen, List.getElem?_cons_zero, Option.bind_eq_bind,
            Option.some_bind] at h
          obtain ⟨names, hcount, hnul, hpre, rfl⟩ := scanNames_eq_some h
          refine ⟨count, names, ?_, hcount, hnul⟩
          rw [Nat.add_comm, List.take_succ_cons]
          exact congrArg _ (List.prefix_iff_eq_take.mp hpre).symm

/-- The length computed for a rule at a value the rule frames is the value's length. -/
theorem ruleLen_of_frames {t value : List UInt8} {r : LengthRule} (hv : r.Frames value)
    (h : value <+: t) : ruleLen t 0 r = some value.length := by
  obtain ⟨more, rfl⟩ := h
  cases r with
  | fixed m => rw [hv]; rfl
  | lengthPrefixed suffixLen =>
      obtain ⟨len, rest, rfl, hrest⟩ := hv
      simp [ruleLen, getVar, hrest]
      omega
  | userHost =>
      obtain ⟨userLen, user, hostLen, host, rfl, huser, hhost⟩ := hv
      have hget : (user ++ hostLen :: (host ++ more))[userLen.toNat]? = some hostLen := by
        rw [List.getElem?_append_right (by omega), huser, Nat.sub_self]
        simp
      simp [ruleLen, invokerLen, Nat.add_comm 1, hget, huser, hhost]
      omega
  | nulTerminatedNames =>
      obtain ⟨count, names, rfl, hcount, hnul⟩ := hv
      have hscan := @scanNames_of_names (count :: (names.flatMap (· ++ [0]) ++ more)) 0 1 names
        hnul ⟨more, rfl⟩
      simp only [ruleLen, updatedDbNamesLen, List.cons_append, List.getElem?_cons_zero,
        Option.bind_eq_bind, Option.some_bind, ← hcount, hscan, List.length_cons,
        List.length_append]
      rw [Nat.add_comm]

/-! One step of the iterator: `next` yields exactly the entry framed at the cursor, if there
is one. -/

/-- A step of `next` that yields a variable: the variable is the entry the block has at the
cursor, framed by its key's rule, and the cursor moves past it. -/
theorem next_eq_some {it it' : StatusVarsIterator} {v : StatusVar} (h : next it = (some v, it')) :
    it' = ⟨it.pos + v.encode.length, it.statusVars⟩ ∧ v.encode <+: it.statusVars.drop it.pos ∧
      v.key.lengthRule.Frames v.value := by
  obtain ⟨pos, s⟩ := it
  unfold next at h
  dsimp only at h ⊢
  split at h
  · cases h
  · rename_i b hb
    split at h
    · cases h
    · rename_i key hkey
      split at h
      · cases h
      · rename_i len hlen
        simp only [getFixed, Nat.add_sub_cancel, Prod.mk.injEq, Option.map_eq_some'] at h
        obtain ⟨⟨value, hslice, rfl⟩, rfl⟩ := h
        obtain ⟨-, hle, rfl⟩ := sliceGet_eq_some hslice
        obtain ⟨hlt, hget⟩ := List.getElem?_eq_some_iff.mp hb
        rw [valueLen_eq_ruleLen, ruleLen_drop] at hlen
        simp only [Nat.add_sub_cancel_left]
        refine ⟨by simp [StatusVar.encode]; omega, ?_, frames_of_ruleLen hlen (by simp; omega)⟩
        rw [List.drop_eq_getElem_cons hlt, hget, StatusVar.encode,
          StatusVarKey.toU8_of_tryFrom hkey]
        exact (List.prefix_cons_inj b).mpr (List.take_prefix _ _)

/-- At an entry framed by its key's rule, `next` yields the entry and moves the cursor past
it. -/
theorem next_of_frames {it : StatusVarsIterator} {v : StatusVar}
    (hv : v.key.lengthRule.Frames v.value) (h : v.encode <+: it.statusVars.drop it.pos) :
    next it = (some v, ⟨it.pos + v.encode.length, it.statusVars⟩) := by
  obtain ⟨pos, s⟩ := it
  obtain ⟨key, value⟩ := v
  obtain ⟨more, hmore⟩ := h
  dsimp only at hmore ⊢
  have hkey : s[pos]? = some key.toU8 := by
    rw [← Nat.add_zero pos, ← List.getElem?_drop, ← hmore]
    simp [StatusVar.encode]
  have hrest : value <+: s.drop (pos + 1) := ⟨more, by rw [← List.drop_drop, ← hmore]; rfl⟩
  have hpos : pos + 1 ≤ s.length := by
    have := congrArg List.length hmore
    simp [StatusVar.encode] at this
    omega
  have hlen : valueLen s (pos + 1) key = some value.length := by
    rw [valueLen_eq_ruleLen, ruleLen_drop]
    exact ruleLen_of_frames hv hrest
  simp only [next, hkey, StatusVarKey.tryFrom_toU8, hlen, getFixed, Nat.add_sub_cancel,
    sliceGet_of_prefix hpos hrest, Option.map_some', StatusVar.length_encode]
  rw [Nat.add_assoc, Nat.add_comm 1]

/-! The run of the iterator: its items are the longest run of framed entries the block starts
with. -/

/-- Whatever the iterator yields from a cursor, the block from the cursor on starts with, as a
run of entries each framed by its key's rule. -/
theorem framesPrefix_takeItems (s : List UInt8) (fuel pos : Nat) :
    FramesPrefix (s.drop pos) (takeItems fuel ⟨pos, s⟩) := by
  induction fuel generalizing pos with
  | zero => exact ⟨by simp [takeItems], by simp [takeItems]⟩
  | succ fuel ih =>
      rcases hnext : next ⟨pos, s⟩ with ⟨_ | v, it'⟩
      · simp [takeItems, hnext, FramesPrefix]
      · obtain ⟨rfl, ⟨more, hmore⟩, hv⟩ := next_eq_some hnext
        obtain ⟨hall, hflat⟩ := ih (pos + v.encode.length)
        have hdrop : s.drop (pos + v.encode.length) = more := by
          rw [← List.drop_drop, ← hmore, List.drop_left]
        simp only [takeItems, hnext]
        refine ⟨List.forall_mem_cons.mpr ⟨hv, hall⟩, ?_⟩
        rw [hdrop] at hflat
        rw [List.flatMap_cons, ← hmore]
        exact (List.prefix_append_right_inj _).mpr hflat

/-- Every run of framed entries the block starts with at a cursor, the iterator yields from
there, given a call for each entry. -/
theorem prefix_takeItems {s : List UInt8} {vs : List StatusVar} {pos fuel : Nat}
    (h : FramesPrefix (s.drop pos) vs) (hfuel : vs.length ≤ fuel) :
    vs <+: takeItems fuel ⟨pos, s⟩ := by
  induction vs generalizing pos fuel with
  | nil => exact List.nil_prefix
  | cons v vs ih =>
      obtain ⟨hall, hflat⟩ := h
      obtain ⟨hv, hall⟩ := List.forall_mem_cons.mp hall
      obtain ⟨fuel, rfl⟩ : ∃ f, fuel = f + 1 := ⟨fuel - 1, by simp at hfuel; omega⟩
      rw [List.flatMap_cons] at hflat
      have hnext := @next_of_frames ⟨pos, s⟩ v hv ((List.prefix_append _ _).trans hflat)
      simp only [takeItems, hnext]
      obtain ⟨more, hmore⟩ := hflat
      refine (List.prefix_cons_inj v).mpr (ih ⟨hall, more, ?_⟩ (by simpa using hfuel))
      rw [← List.drop_drop, ← hmore, List.append_assoc, List.drop_left]

theorem length_le_length_flatMap_encode (vs : List StatusVar) :
    vs.length ≤ (vs.flatMap StatusVar.encode).length := by
  induction vs with
  | nil => simp
  | cons v vs ih =>
      simp only [List.flatMap_cons, List.length_append, StatusVar.length_encode, List.length_cons]
      omega

theorem length_le_of_framesPrefix {s : List UInt8} {vs : List StatusVar}
    (h : FramesPrefix s vs) : vs.length ≤ s.length :=
  (length_le_length_flatMap_encode vs).trans h.2.length_le

/-- The items of the iterator over a block are the longest run of entries the block starts
with, each a known key byte and a value framed by its key's length rule: they are such a run,
and every such run is a prefix of them. -/
theorem items_maximal_framesPrefix (s : List UInt8) :
    FramesPrefix s (new s).items ∧ ∀ vs, FramesPrefix s vs → vs <+: (new s).items :=
  ⟨framesPrefix_takeItems s _ 0, fun _ h =>
    prefix_takeItems h (Nat.le_succ_of_le (length_le_of_framesPrefix h))⟩

/-- Two entries, then the unknown key 99. -/
example : (new [13, 1, 2, 3, 5, 2, 0x55, 0x54, 99]).items =
    [⟨.microseconds, [1, 2, 3]⟩, ⟨.timeZone, [2, 0x55, 0x54]⟩] := by decide

/-- Past the entries it yielded, `next` yields nothing: the items are those before the
iterator's first `None`, which the fuel of `items` reaches. -/
theorem next_after_items (s : List UInt8) :
    (next ⟨((new s).items.flatMap StatusVar.encode).length, s⟩).1 = none := by
  have hframes : FramesPrefix s (new s).items := framesPrefix_takeItems s (s.length + 1) 0
  rcases hnext : next ⟨((new s).items.flatMap StatusVar.encode).length, s⟩ with ⟨_ | v, it'⟩
  · rfl
  · obtain ⟨-, hat, hv⟩ := next_eq_some hnext
    obtain ⟨more, hmore⟩ := hframes.2
    have hdrop : s.drop ((new s).items.flatMap StatusVar.encode).length = more :=
      (congrArg (List.drop _) hmore).symm.trans (List.drop_left _ _)
    dsimp only at hat
    rw [hdrop] at hat
    have hlonger : FramesPrefix s ((new s).items ++ [v]) := by
      refine ⟨fun w hw => ?_, ?_⟩
      · rcases List.mem_append.mp hw with hw | hw
        · exact hframes.1 w hw
        · rw [List.mem_singleton.mp hw]
          exact hv
      · rw [List.flatMap_append, List.flatMap_singleton]
        exact ((List.prefix_append_right_inj _).mpr hat).trans ⟨[], by rw [List.append_nil, hmore]⟩
    have := (@prefix_takeItems s _ 0 (s.length + 1) hlonger
      (Nat.le_succ_of_le (length_le_of_framesPrefix hlonger))).length_le
    simp [items, new] at this

/-- An early return inside a value leaves the cursor just after the key: when the length bytes
of a value cannot be read (a truncated `Invoker` or `UpdatedDbNames`), `next` returns `None`,
and the following call reads the byte after the key as a key, yielding the entry framed
there. -/
theorem next_resumes_inside_value {s : List UInt8} {pos : Nat} {key : StatusVarKey}
    {v : StatusVar} (hkey : s[pos]? = some key.toU8) (hlen : valueLen s (pos + 1) key = none)
    (hv : v.key.lengthRule.Frames v.value) (hat : v.encode <+: s.drop (pos + 1)) :
    (next ⟨pos, s⟩).1 = none ∧ (next (next ⟨pos, s⟩).2).1 = some v := by
  have hstop : next ⟨pos, s⟩ = (none, ⟨pos + 1, s⟩) := by
    simp only [next, hkey, StatusVarKey.tryFrom_toU8, hlen]
  rw [hstop, @next_of_frames ⟨pos + 1, s⟩ v hv hat]
  exact ⟨rfl, rfl⟩

/-- At or past the end of the block `next` returns `None` and leaves the cursor alone, so
every later call returns `None` too. -/
theorem next_of_length_le {it : StatusVarsIterator} (h : it.statusVars.length ≤ it.pos) :
    next it = (none, it) := by
  simp [next, List.getElem?_eq_none h]

/-- Where `next` leaves the cursor when it returns `None`: on the key (an unknown key byte, to
be read again by the next call), at or past the end of the block, where the next call returns
`None` again and leaves it there, or, for an `Invoker` or an `UpdatedDbNames` value whose length
bytes run past the end, just after the key. -/
theorem next_eq_none_cursor {it : StatusVarsIterator} (h : (next it).1 = none) :
    (next it).2 = it ∨
      (it.statusVars.length ≤ (next it).2.pos ∧ next (next it).2 = (none, (next it).2)) ∨
      ((next it).2 = ⟨it.pos + 1, it.statusVars⟩ ∧
        (it.statusVars[it.pos]? = some StatusVarKey.invoker.toU8 ∨
          it.statusVars[it.pos]? = some StatusVarKey.updatedDbNames.toU8)) := by
  obtain ⟨pos, s⟩ := it
  rcases hb : s[pos]? with _ | b
  · simp [next, hb]
  rcases hk : StatusVarKey.tryFrom b with e | key
  · simp [next, hb, hk]
  obtain rfl := StatusVarKey.toU8_of_tryFrom hk
  rcases hl : valueLen s (pos + 1) key with _ | len
  · have hnext : next ⟨pos, s⟩ = (none, ⟨pos + 1, s⟩) := by simp [next, hb, hl]
    rw [hnext]
    right
    cases key <;> simp only [valueLen, getVar, Option.map_eq_map, Option.map_eq_none'] at hl
    case invoker => exact .inr ⟨rfl, .inl rfl⟩
    case updatedDbNames => exact .inr ⟨rfl, .inr rfl⟩
    all_goals first
      | cases hl
      | exact .inl ⟨List.getElem?_eq_none_iff.mp hl, next_of_length_le (List.getElem?_eq_none_iff.mp hl)⟩
  · have hnext : next ⟨pos, s⟩ =
        ((sliceGet s (pos + 1) (pos + 1 + len)).map (StatusVar.mk key), ⟨pos + 1 + len, s⟩) := by
      simp only [next, hb, StatusVarKey.tryFrom_toU8, hl, getFixed, Nat.add_sub_cancel]
    rw [hnext] at h ⊢
    simp only [Option.map_eq_none', sliceGet] at h
    split_ifs at h with hle
    have hend : s.length ≤ pos + 1 + len := by omega
    exact .inr (.inl ⟨hend, next_of_length_le hend⟩)

/-- The unknown key 99 stops the iterator with the cursor on it. -/
theorem next_eq_none_cursor_unknown_key :
    (next ⟨0, [99]⟩).1 = none ∧ ((next ⟨0, [99]⟩).2 = ⟨0, [99]⟩ ∨
      (([99] : List UInt8).length ≤ (next ⟨0, [99]⟩).2.pos ∧
        next (next ⟨0, [99]⟩).2 = (none, (next ⟨0, [99]⟩).2)) ∨
      ((next ⟨0, [99]⟩).2 = ⟨0 + 1, [99]⟩ ∧
        (([99] : List UInt8)[0]? = some StatusVarKey.invoker.toU8 ∨
          ([99] : List UInt8)[0]? = some StatusVarKey.updatedDbNames.toU8))) :=
  have h : (next ⟨0, [99]⟩).1 = none := by decide
  ⟨h, next_eq_none_cursor h⟩

/-- The block `[Invoker, 14]`: the user length 14 runs past the end, and the next call reads
that byte as the key `CommitTs`, with its empty value. -/
theorem next_resumes_inside_truncated_invoker :
    ([11, 14] : List UInt8)[0]? = some StatusVarKey.invoker.toU8 ∧
      valueLen [11, 14] 1 .invoker = none ∧ StatusVarKey.commitTs.lengthRule.Frames [] ∧
      StatusVar.encode ⟨.commitTs, []⟩ <+: ([11, 14] : List UInt8).drop 1 ∧
      (next ⟨0, [11, 14]⟩).1 = none ∧ (next (next ⟨0, [11, 14]⟩).2).1 = some ⟨.commitTs, []⟩ :=
  ⟨by decide, by decide, rfl, ⟨[], by decide⟩,
    @next_resumes_inside_value [11, 14] 0 .invoker ⟨.commitTs, []⟩ (by decide) (by decide) rfl
      ⟨[], by decide⟩⟩

end StatusVarsIterator

/-! `StatusVar::get_value`. -/

/-- `let mut read = self.value;`, reads, each `.map_err(|_| self.value)?`: the value read, or
the raw bytes on any failure. -/
def readOrRaw {α : Type} (value : List UInt8) (m : ReadM (List UInt8) α) :
    Except (List UInt8) α :=
  match m.run value with
  | .ok (a, _) => .ok a
  | _ => .error value

/-- One name of `UpdatedDbNames` as `get_value` reads it: `position` of the first NUL,
`&read[..index]`, then `read = &read[index..]`, which leaves the NUL in front. -/
def readDbName : ReadM (List UInt8) (List UInt8) := fun read =>
  match nulPosition read with
  | some index => .ok (read.take index, read.drop index)
  | none => .err eofError

/-- `for _ in 0..count { names.push(..) }`. -/
def readDbNames : Nat → ReadM (List UInt8) (List (List UInt8))
  | 0 => pure []
  | count + 1 => do
      let name ← readDbName
      let names ← readDbNames count
      pure (name :: names)

/-- Status variable value. `RawFlags` and `RawText` are the integers and bytes they wrap. -/
inductive StatusVarVal where
  | flags2 (flags : UInt32)
  | sqlMode (flags : UInt64)
  | catalog (raw : List UInt8)
  | autoIncrement (increment offset : UInt16)
  | charset (charsetClient collationConnection collationServer : UInt16)
  | timeZone (text : List UInt8)
  | catalogNz (text : List UInt8)
  | lcTimeNames (code : UInt16)
  | charsetDatabase (collation : UInt16)
  | tableMapForUpdate (tableMap : UInt64)
  | masterDataWritten (bytes : {bs : List UInt8 // bs.length = 4})
  | invoker (username hostname : List UInt8)
  | updatedDbNames (names : List (List UInt8))
  | microseconds (value : UInt32)
  | commitTs (raw : List UInt8)
  | commitTs2 (raw : List UInt8)
  | explicitDefaultsForTimestamp (value : Bool)
  | ddlLoggedWithXid (xid : UInt64)
  | defaultCollationForUtf8mb4 (collation : UInt16)
  | sqlRequirePrimaryKey (value : UInt8)
  | defaultTableEncryption (value : UInt8)
  deriving DecidableEq

/-- `StatusVar::get_value`: the parsed value, or the raw value in case of error. -/
def StatusVar.getValue (v : StatusVar) : Except (List UInt8) StatusVarVal :=
  match v.key with
  | .flags2 => readOrRaw v.value (.flags2 <$> readU32)
  | .sqlMode => readOrRaw v.value (.sqlMode <$> readU64)
  | .catalog => .ok (.catalog v.value)
  | .autoIncrement => readOrRaw v.value do
      let increment ← readU16
      let offset ← readU16
      pure (.autoIncrement increment offset)
  | .charset => readOrRaw v.value do
      let charsetClient ← readU16
      let collationConnection ← readU16
      let collationServer ← readU16
      pure (.charset charsetClient collationConnection collationServer)
  | .timeZone => readOrRaw v.value do
      -- `read.get(..len)`
      let len ← readU8
      .timeZone <$> readExact len.toNat
  | .catalogNz => readOrRaw v.value do
      let len ← readU8
      .catalogNz <$> readExact len.toNat
  | .lcTimeNames => readOrRaw v.value (.lcTimeNames <$> readU16)
  | .charsetDatabase => readOrRaw v.value (.charsetDatabase <$> readU16)
  | .tableMapForUpdate => readOrRaw v.value (.tableMapForUpdate <$> readU64)
  | .masterDataWritten => readOrRaw v.value (.masterDataWritten <$> readArray 4)
  | .invoker => readOrRaw v.value do
      -- `read.get(..len)`, then `read = &read[len..]`
      let len ← readU8
      let username ← readExact len.toNat
      let len ← readU8
      let hostname ← readExact len.toNat
      pure (.invoker username hostname)
  | .updatedDbNames => readOrRaw v.value do
      let count ← readU8
      .updatedDbNames <$> readDbNames count.toNat
  | .microseconds => readOrRaw v.value (.microseconds <$> readU32)
  | .commitTs => .ok (.commitTs v.value)
  | .commitTs2 => .ok (.commitTs2 v.value)
  | .explicitDefaultsForTimestamp =>
      readOrRaw v.value ((fun val : UInt8 => .explicitDefaultsForTimestamp (val != 0)) <$> readU8)
  | .ddlLoggedWithXid => readOrRaw v.value (.ddlLoggedWithXid <$> readU64)
  | .defaultCollationForUtf8mb4 => readOrRaw v.value (.defaultCollationForUtf8mb4 <$> readU16)
  | .sqlRequirePrimaryKey => readOrRaw v.value (.sqlRequirePrimaryKey <$> readU8)
  | .defaultTableEncryption => readOrRaw v.value (.defaultTableEncryption <$> readU8)

/-! What a framed value holds, and what `get_value` returns for it. -/

/-- `count` NUL-terminated names from the front of `bs`, each without its NUL. -/
def splitNames : Nat → List UInt8 → List (List UInt8)
  | 0, _ => []
  | count + 1, bs => bs.takeWhile (· != 0) :: splitNames count ((bs.dropWhile (· != 0)).drop 1)

/-- What a value framed by its key's rule holds, read off the rule's layout: the fixed-width
integers from all their little-endian bytes (`Microseconds` from its 3), the text after the
length byte of `TimeZone` and `CatalogNz`, the user and host of `Invoker`, the names of
`UpdatedDbNames`, the raw bytes of `Catalog` and the commit timestamps, and one-byte values. -/
def StatusVar.framedValue (v : StatusVar) : StatusVarVal :=
  match v.key with
  | .flags2 => .flags2 (UInt32.ofNat (ofLE v.value))
  | .sqlMode => .sqlMode (UInt64.ofNat (ofLE v.value))
  | .catalog => .catalog v.value
  | .autoIncrement =>
      .autoIncrement (UInt16.ofNat (ofLE (v.value.take 2))) (UInt16.ofNat (ofLE (v.value.drop 2)))
  | .charset =>
      .charset (UInt16.ofNat (ofLE (v.value.take 2))) (UInt16.ofNat (ofLE ((v.value.drop 2).take 2)))
        (UInt16.ofNat (ofLE (v.value.drop 4)))
  | .timeZone => .timeZone (v.value.drop 1)
  | .catalogNz => .catalogNz (v.value.drop 1)
  | .lcTimeNames => .lcTimeNames (UInt16.ofNat (ofLE v.value))
  | .charsetDatabase => .charsetDatabase (UInt16.ofNat (ofLE v.value))
  | .tableMapForUpdate => .tableMapForUpdate (UInt64.ofNat (ofLE v.value))
  | .masterDataWritten =>
      .masterDataWritten ⟨List.ofFn fun i : Fin 4 => v.value.getD i 0, List.length_ofFn _⟩
  | .invoker =>
      .invoker ((v.value.drop 1).take (v.value.headD 0).toNat)
        (v.value.drop ((v.value.headD 0).toNat + 2))
  | .updatedDbNames => .updatedDbNames (splitNames (v.value.headD 0).toNat (v.value.drop 1))
  | .microseconds => .microseconds (UInt32.ofNat (ofLE v.value))
  | .commitTs => .commitTs v.value
  | .commitTs2 => .commitTs2 v.value
  | .explicitDefaultsForTimestamp => .explicitDefaultsForTimestamp (v.value.headD 0 != 0)
  | .ddlLoggedWithXid => .ddlLoggedWithXid (UInt64.ofNat (ofLE v.value))
  | .defaultCollationForUtf8mb4 => .defaultCollationForUtf8mb4 (UInt16.ofNat (ofLE v.value))
  | .sqlRequirePrimaryKey => .sqlRequirePrimaryKey (v.value.headD 0)
  | .defaultTableEncryption => .defaultTableEncryption (v.value.headD 0)

/-- On a value its key's rule frames, `get_value` returns what the value holds, for every key
but `Microseconds` and `UpdatedDbNames`. -/
theorem getValue_of_frames {v : StatusVar} (hv : v.key.lengthRule.Frames v.value)
    (hmicro : v.key ≠ .microseconds) (hnames : v.key ≠ .updatedDbNames) :
    v.getValue = .ok v.framedValue := by
  obtain ⟨key, value⟩ := v
  cases key <;> simp only [StatusVarKey.lengthRule, LengthRule.Frames] at hv
  case catalog | commitTs | commitTs2 => rfl
  case microseconds => exact absurd rfl hmicro
  case updatedDbNames => exact absurd rfl hnames
  case sqlRequirePrimaryKey | defaultTableEncryption | explicitDefaultsForTimestamp =>
    obtain ⟨b, rfl⟩ := List.length_eq_one.mp hv
    simp [StatusVar.getValue, StatusVar.framedValue, readOrRaw, readU8, readUInt_stream]
  case timeZone | catalogNz =>
    obtain ⟨len, rest, rfl, hrest⟩ := hv
    simp [StatusVar.getValue, StatusVar.framedValue, readOrRaw, readU8_stream_append,
      readExact_stream, hrest]
  case invoker =>
    obtain ⟨userLen, user, hostLen, host, rfl, huser, hhost⟩ := hv
    simp [StatusVar.getValue, StatusVar.framedValue, readOrRaw, readU8_stream_append,
      readExact_stream, ← huser, ← hhost, List.drop_append_eq_append_drop]
  case masterDataWritten =>
    obtain ⟨a, b, c, d, rfl⟩ : ∃ a b c d, value = [a, b, c, d] := by
      match value, hv with
      | [a, b, c, d], _ => exact ⟨a, b, c, d, rfl⟩
    rfl
  all_goals simp only [StatusVar.getValue, StatusVar.framedValue, readOrRaw, readU16, readU32,
    readU64, bind_pure_comp, Functor.map_map, bind_map_left, StateT.run_bind, StateT.run_map,
    readUInt_stream, hv, ↓reduceIte, Outcome.ok_bind, Outcome.map_ok, List.length_drop,
    List.take_of_length_le, List.drop_drop, le_refl, Nat.reduceLeDiff, Nat.reduceSub, Nat.reduceAdd]

/-- Every item the iterator yields is framed by its key's rule. -/
theorem frames_of_mem_items {s : List UInt8} {v : StatusVar}
    (hv : v ∈ (StatusVarsIterator.new s).items) : v.key.lengthRule.Frames v.value :=
  (StatusVarsIterator.framesPrefix_takeItems s _ 0).1 v hv

/-- Every item the iterator yields, other than a `Microseconds` or an `UpdatedDbNames` one,
parses with `get_value` into what its framed value holds. -/
theorem getValue_eq_framedValue (s : List UInt8) (v : StatusVar)
    (hv : v ∈ (StatusVarsIterator.new s).items) (hmicro : v.key ≠ .microseconds)
    (hnames : v.key ≠ .updatedDbNames) : v.getValue = .ok v.framedValue :=
  getValue_of_frames (frames_of_mem_items hv) hmicro hnames

/-- The block `[TimeZone, 2, 'U', 'T']`. -/
theorem getValue_eq_framedValue_timeZone :
    (⟨.timeZone, [2, 0x55, 0x54]⟩ : StatusVar) ∈ (StatusVarsIterator.new [5, 2, 0x55, 0x54]).items ∧
      StatusVarKey.timeZone ≠ .microseconds ∧ StatusVarKey.timeZone ≠ .updatedDbNames ∧
      StatusVar.getValue ⟨.timeZone, [2, 0x55, 0x54]⟩ = .ok (.timeZone [0x55, 0x54]) :=
  ⟨by decide, by decide, by decide,
    getValue_eq_framedValue [5, 2, 0x55, 0x54] ⟨.timeZone, [2, 0x55, 0x54]⟩ (by decide) (by decide)
      (by decide)⟩

/-- A `Microseconds` item the iterator yields never parses: the iterator frames 3 bytes, and
`get_value` reads a `u32` from them and returns the raw value. -/
theorem getValue_microseconds_fails (s : List UInt8) (v : StatusVar)
    (hv : v ∈ (StatusVarsIterator.new s).items) (hkey : v.key = .microseconds) :
    v.getValue = .error v.value := by
  obtain ⟨key, value⟩ := v
  have hlen := frames_of_mem_items hv
  cases hkey
  simp only [StatusVarKey.lengthRule, LengthRule.Frames] at hlen
  simp [StatusVar.getValue, readOrRaw, readU32, readUInt_stream, hlen]

/-- The block `[Microseconds, 1, 2, 3]`. -/
theorem getValue_microseconds_three_bytes :
    (⟨.microseconds, [1, 2, 3]⟩ : StatusVar) ∈ (StatusVarsIterator.new [13, 1, 2, 3]).items ∧
      StatusVar.getValue ⟨.microseconds, [1, 2, 3]⟩ = .error [1, 2, 3] :=
  ⟨by decide, getValue_microseconds_fails [13, 1, 2, 3] ⟨.microseconds, [1, 2, 3]⟩ (by decide) rfl⟩

theorem readDbName_run {read : List UInt8} {index : Nat} (h : nulPosition read = some index) :
    readDbName.run read = .ok (read.take index, read.drop index) := by
  simp only [StateT.run, readDbName, h]

/-- After the first name `get_value` stands on that name's NUL, so it reads every later name
as empty. -/
theorem readDbNames_nul (count : Nat) (rest : List UInt8) :
    (readDbNames count).run (0 :: rest) = .ok (List.replicate count [], 0 :: rest) := by
  induction count with
  | zero => rfl
  | succ count ih =>
      simp [readDbNames, readDbName_run (show nulPosition (0 :: rest) = some 0 by rfl), ih,
        List.replicate_succ]

theorem splitNames_flatMap {names : List (List UInt8)} (hnul : ∀ name ∈ names, (0 : UInt8) ∉ name)
    (rest : List UInt8) : splitNames names.length (names.flatMap (· ++ [0]) ++ rest) = names := by
  induction names with
  | nil => rfl
  | cons name names ih =>
      have hpos : ∀ a ∈ name, (a != 0) = true := fun a ha => by
        have := hnul name (List.mem_cons_self _ _)
        simp only [bne_iff_ne, ne_eq]
        rintro rfl
        exact this ha
      simp [splitNames, List.takeWhile_append_of_pos hpos, List.dropWhile_append_of_pos hpos,
        ih (fun n hn => hnul n (List.mem_cons_of_mem _ hn))]

/-- An `UpdatedDbNames` item the iterator yields parses with its first name only: every later
name comes back empty. -/
theorem getValue_updatedDbNames (s : List UInt8) (v : StatusVar)
    (hv : v ∈ (StatusVarsIterator.new s).items) (hkey : v.key = .updatedDbNames) :
    ∃ names, v.framedValue = .updatedDbNames names ∧
      v.getValue = .ok (.updatedDbNames (names.take 1 ++ List.replicate (names.length - 1) [])) := by
  obtain ⟨key, value⟩ := v
  have hframes := frames_of_mem_items hv
  cases hkey
  obtain ⟨count, names, rfl, hcount, hnul⟩ := hframes
  refine ⟨names, ?_, ?_⟩
  · simpa [StatusVar.framedValue, ← hcount] using splitNames_flatMap hnul []
  · cases names with
    | nil => simp [StatusVar.getValue, readOrRaw, readU8_stream_append, ← hcount, readDbNames]
    | cons name names =>
        have hname := hnul name (List.mem_cons_self _ _)
        simp [StatusVar.getValue, readOrRaw, readU8_stream_append, ← hcount, readDbNames,
          readDbName_run (nulPosition_append hname), readDbNames_nul]

/-- The block `[UpdatedDbNames, 2, 'a', 0, 'b', 0]`: `get_value` returns `["a", ""]`. -/
theorem getValue_updatedDbNames_two_names :
    (⟨.updatedDbNames, [2, 97, 0, 98, 0]⟩ : StatusVar) ∈
        (StatusVarsIterator.new [12, 2, 97, 0, 98, 0]).items ∧
      ∃ names, StatusVar.framedValue ⟨.updatedDbNames, [2, 97, 0, 98, 0]⟩ = .updatedDbNames names ∧
        StatusVar.getValue ⟨.updatedDbNames, [2, 97, 0, 98, 0]⟩ =
          .ok (.updatedDbNames (names.take 1 ++ List.replicate (names.length - 1) [])) :=
  ⟨by decide, getValue_updatedDbNames [12, 2, 97, 0, 98, 0] ⟨.updatedDbNames, [2, 97, 0, 98, 0]⟩
    (by decide) rfl⟩

/-- Two names, `a` and `b`. -/
example : (StatusVarsIterator.new [12, 2, 97, 0, 98, 0]).items.map StatusVar.getValue =
    [.ok (.updatedDbNames [[97], []])] := rfl

end BinlogCodec
