import Mathlib.Data.List.Nodup
import Mathlib.Data.List.Perm.Basic
import Mathlib.Data.List.TakeWhile
import ReliableNotifier.Library.Json.Parser
import ReliableNotifier.Library.Json.Text

/-! # Decoding into a struct

`json.Decoder` with `DisallowUnknownFields`, for a struct of strings and integers. A member
belongs to the field of its name or, failing that, to the field that its name folds to. A
null leaves its field as it is, and so does a member that is not there; the last member of
a field decides.
-/

namespace Json

/-- What a call of `Decode` finds behind the space. -/
inductive Next where
  | eof
  | malformed
  | value (v : Value) (rest : Bytes)

def next (input : Bytes) : Next :=
  if skipSpace input = [] then .eof
  else match parse (skipSpace input) with
    | none => .malformed
    | some (v, rest) => .value v rest

theorem next_eq_eof_iff {input : Bytes} : next input = .eof ↔ Space input := by
  have hEmpty : skipSpace input = [] ↔ Space input := List.dropWhile_eq_nil_iff
  rw [← hEmpty, next]
  split
  · simp [*]
  · rename_i hSome
    simp only [hSome, iff_false]
    cases parse (skipSpace input) <;> exact fun h => by cases h

theorem next_eq_value_iff {input rest : Bytes} {v : Value} :
    next input = .value v rest ↔ ∃ gap text, Space gap ∧ input = gap ++ text ∧ Reads (.value v) text rest := by
  constructor
  · intro h
    unfold next at h
    split at h
    · cases h
    · split at h
      · cases h
      · rename_i hParse
        cases h
        obtain ⟨gap, hGap, hInput⟩ := exists_gap input
        exact ⟨gap, skipSpace input, hGap, hInput, parse_eq_some_iff.mp hParse⟩
  · rintro ⟨gap, text, hGap, rfl, hReads⟩
    have hSkip : skipSpace (gap ++ text) = text := hReads.skip hGap
    have hSome : text ≠ [] := by
      rintro rfl
      exact absurd hReads.length_lt (Nat.not_lt_zero _)
    rw [next, hSkip, if_neg hSome, parse_eq_some_iff.mpr hReads]

/-- A field of a struct: its name, and how a value is stored in it. -/
structure StructField (σ : Type) where
  name : Bytes
  store : Value → σ → Option σ

variable {σ : Type}

def storeString (set : Bytes → σ → σ) : Value → σ → Option σ
  | .null, s => some s
  | .string raw, s => some (set (unquote raw) s)
  | _, _ => none

def storeInt64 (set : Int → σ → σ) : Value → σ → Option σ
  | .null, s => some s
  | .number literal, s => (parseInt64 literal).map fun n => set n s
  | _, _ => none

def findField (fields : List (StructField σ)) (name : Bytes) : Option (StructField σ) :=
  (fields.find? (·.name = name)).or (fields.find? fun field => foldName field.name = foldName name)

def storeMember (fields : List (StructField σ)) (s : σ) (member : Bytes × Value) : Option σ :=
  (findField fields member.1).bind fun field => field.store member.2 s

/-- The members of an object, with their names read. -/
def named (members : List (Bytes × Value)) : List (Bytes × Value) := members.map fun (raw, v) => (unquote raw, v)

def isNull : Value → Bool
  | .null => true
  | _ => false

/-- The last value that is not null and stands under a name that folds like the given one; `v` if there is none. -/
def lastFrom (name : Bytes) (v : Value) (members : List (Bytes × Value)) : Value :=
  members.foldl
    (fun v member => if foldName name = foldName member.1 ∧ isNull member.2 = false then member.2 else v) v

def decodeStruct (fields : List (StructField σ)) (v : Value) (s : σ) : Option σ :=
  match v with
  | .null => some s
  | .object members => (named members).foldlM (storeMember fields) s
  | _ => none

/-! ## What a run over the members does -/

variable {fields : List (StructField σ)} {members : List (Bytes × Value)} {s t : σ}

theorem findField_name {name : Bytes} {field : StructField σ} (h : findField fields name = some field) :
    field ∈ fields ∧ foldName field.name = foldName name := by
  rcases Option.or_eq_some_iff.mp h with hExact | ⟨_, hFolded⟩
  · have hName : field.name = name := by simpa using List.find?_some hExact
    exact ⟨List.mem_of_find?_eq_some hExact, congrArg foldName hName⟩
  · exact ⟨List.mem_of_find?_eq_some hFolded, by simpa using List.find?_some hFolded⟩

theorem storeMember_eq_some_iff {member : Bytes × Value} :
    storeMember fields s member = some t ↔ ∃ field, findField fields member.1 = some field ∧
      field.store member.2 s = some t :=
  Option.bind_eq_some_iff

theorem findField_of_fold {name : Bytes} {field : StructField σ} (hField : field ∈ fields)
    (hName : foldName field.name = foldName name)
    (hDistinct : ∀ other ∈ fields, foldName other.name = foldName field.name → other = field) :
    findField fields name = some field := by
  have hSome : (findField fields name).isSome = true := by
    rw [findField, Option.isSome_or, Bool.or_eq_true, List.find?_isSome, List.find?_isSome]
    exact .inr ⟨field, hField, decide_eq_true hName⟩
  obtain ⟨other, hOther⟩ := Option.isSome_iff_exists.mp hSome
  obtain ⟨hMem, hFold⟩ := findField_name hOther
  rw [hOther, hDistinct other hMem (hFold.trans hName.symm)]

theorem lastFrom_cons (name : Bytes) (v : Value) (member : Bytes × Value) (members : List (Bytes × Value)) :
    lastFrom name v (member :: members) =
      lastFrom name (if foldName name = foldName member.1 ∧ isNull member.2 = false then member.2 else v) members :=
  rfl

theorem lastFrom_mem (name : Bytes) (v : Value) (members : List (Bytes × Value)) :
    lastFrom name v members = v ∨
      ∃ member ∈ members, foldName name = foldName member.1 ∧ lastFrom name v members = member.2 := by
  induction members generalizing v with
  | nil => exact .inl rfl
  | cons member members ih =>
    rw [lastFrom_cons]
    split
    · rename_i hCounts
      rcases ih member.2 with hLast | ⟨source, hMem, hSource⟩
      · exact .inr ⟨member, List.mem_cons_self, hCounts.1, hLast⟩
      · exact .inr ⟨source, List.mem_cons_of_mem _ hMem, hSource⟩
    · refine (ih v).imp_right ?_
      rintro ⟨source, hMem, hSource⟩
      exact ⟨source, List.mem_cons_of_mem _ hMem, hSource⟩

/-- Every member was stored in its field. -/
theorem exists_store_of_mem (h : members.foldlM (storeMember fields) s = some t) :
    ∀ member ∈ members, ∃ u u', storeMember fields u member = some u' := by
  induction members generalizing s with
  | nil => exact List.forall_mem_nil _
  | cons member members ih =>
    rw [List.foldlM_cons] at h
    obtain ⟨u, hFirst, hRest⟩ := Option.bind_eq_some_iff.mp h
    exact List.forall_mem_cons.mpr ⟨⟨s, u, hFirst⟩, ih hRest⟩

/-- Members that may change places in pairs may be put in any order. -/
theorem foldlM_perm {members' : List (Bytes × Value)} (hPerm : members.Perm members')
    (hComm : ∀ a ∈ members, ∀ b ∈ members, ∀ u, (storeMember fields u a).bind (storeMember fields · b) =
      (storeMember fields u b).bind (storeMember fields · a)) :
    members.foldlM (storeMember fields) s = members'.foldlM (storeMember fields) s := by
  induction hPerm generalizing s with
  | nil => rfl
  | cons member _ ih =>
    simp only [List.foldlM_cons]
    refine Option.bind_congr fun u _ => ih fun a ha b hb => ?_
    exact hComm a (List.mem_cons_of_mem _ ha) b (List.mem_cons_of_mem _ hb)
  | swap b a rest =>
    have hSwap := hComm a List.mem_cons_self b (List.mem_cons_of_mem _ List.mem_cons_self) s
    have hRest := congrArg (Option.bind · fun u => rest.foldlM (storeMember fields) u) hSwap
    simp only [List.foldlM_cons, Option.bind_assoc] at hRest ⊢
    exact hRest
  | trans hFirst _ ih ih' =>
    refine (ih hComm).trans (ih' fun a ha b hb => ?_)
    exact hComm a (hFirst.mem_iff.mpr ha) b (hFirst.mem_iff.mpr hb)

/-- Members under distinct names are known, up to their order, once there is one for every name. -/
theorem perm_of_names {members' : List (Bytes × Value)} (hNames : (members.map Prod.fst).Nodup)
    (hNames' : (members'.map Prod.fst).Nodup) (hName : ∀ member ∈ members, member.1 ∈ members'.map Prod.fst)
    (hMem : ∀ member ∈ members', member ∈ members) : members.Perm members' := by
  refine (List.perm_ext_iff_of_nodup (.of_map _ hNames) (.of_map _ hNames')).mpr fun member =>
    ⟨fun hMember => ?_, hMem member⟩
  obtain ⟨same, hSame, hEq⟩ := List.mem_map.mp (hName member hMember)
  rwa [← List.inj_on_of_nodup_map hNames (hMem same hSame) hMember hEq]

end Json
