import Mathlib
import MuxRuntime.Foundations.Str

/-!
# JSON trees up to member order

A JSON document as a tree in which an object is a function from names to members,
so that two trees are equal exactly when the documents agree up to the order of
their members. Over these trees the module states what the JSON standards say
about changing a document: RFC 7396 (merge patches), RFC 6901 (pointers) and
RFC 6902 (patches).
-/

/-- A JSON value over a type of strings, numbers and Booleans. -/
inductive JsonTree (α : Type) where
  | null
  | scalar (value : α)
  | array (items : List (JsonTree α))
  | object (members : String → Option (JsonTree α))

namespace JsonTree

open List

variable {α : Type}

/-- Induction from the items and members. -/
@[elab_as_elim]
theorem member_induction {motive : JsonTree α → Prop} (null : motive null)
    (scalar : ∀ value, motive (scalar value))
    (array : ∀ items, (∀ t ∈ items, motive t) → motive (array items))
    (object : ∀ members, (∀ name t, members name = some t → motive t) →
      motive (object members)) (t : JsonTree α) : motive t := by
  apply @JsonTree.rec α motive (fun items => ∀ t ∈ items, motive t)
    (fun member => ∀ t, member = some t → motive t)
  · exact null
  · exact scalar
  · exact array
  · exact object
  · intro t ht
    cases ht
  · intro head tail hhead htail t ht
    rcases mem_cons.mp ht with rfl | ht
    · exact hhead
    · exact htail t ht
  · intro t ht
    cases ht
  · intro value hvalue t ht
    cases ht
    exact hvalue

/-- The members of an object; other values have none. -/
def members : JsonTree α → String → Option (JsonTree α)
  | object members => members
  | _ => fun _ => none

@[simp]
lemma members_object (m : String → Option (JsonTree α)) : (object m).members = m := (rfl)

@[simp]
lemma members_null : (null : JsonTree α).members = fun _ => none := (rfl)

/-! ## Equality -/

mutual

/-- Equality of RFC 6902, section 4.6: values of the same type, with arrays and objects
compared member by member and the other values by `same`. -/
def Equal (same : α → α → Prop) : JsonTree α → JsonTree α → Prop
  | null, null => True
  | scalar a, scalar b => same a b
  | array as, array bs => EqualItems same as bs
  | object m, object m' => ∀ name, EqualMember same (m name) (m' name)
  | _, _ => False

def EqualItems (same : α → α → Prop) : List (JsonTree α) → List (JsonTree α) → Prop
  | [], [] => True
  | a :: as, b :: bs => Equal same a b ∧ EqualItems same as bs
  | _, _ => False

def EqualMember (same : α → α → Prop) : Option (JsonTree α) → Option (JsonTree α) → Prop
  | none, none => True
  | some a, some b => Equal same a b
  | _, _ => False

end

lemma equalItems_iff {same : α → α → Prop} {as bs : List (JsonTree α)} :
    EqualItems same as bs ↔ List.Forall₂ (Equal same) as bs := by
  induction as generalizing bs with
  | nil => cases bs <;> simp [EqualItems]
  | cons a as ih => cases bs <;> simp [EqualItems, ih]

lemma Equal.swap {same same' : α → α → Prop} (hle : ∀ a b, same a b → same' b a)
    {t t' : JsonTree α} (h : Equal same t t') : Equal same' t' t := by
  induction t using member_induction generalizing t' with
  | null => cases t' <;> simp_all [Equal]
  | scalar a =>
    cases t' with
    | scalar b => exact hle a b h
    | _ => exact h.elim
  | array items ih =>
    cases t' with
    | array items' =>
      simp only [Equal, equalItems_iff, forall₂_iff_get] at h ⊢
      exact ⟨h.1.symm, fun i hi hi' => ih _ (get_mem items ⟨i, hi'⟩) (h.2 i hi' hi)⟩
    | _ => exact h.elim
  | object m ih => ?_
  cases t' with
  | object m' =>
    intro name
    have hname := h name
    cases hm : m name with
    | none =>
      rw [hm] at hname
      cases hm' : m' name with
      | none => trivial
      | some b => exact (hm' ▸ hname).elim
    | some a => ?_
    rw [hm] at hname
    cases hm' : m' name with
    | none => exact (hm' ▸ hname).elim
    | some b =>
      rw [hm'] at hname
      exact ih name a hm hname
  | _ => exact h.elim

lemma Equal.mono {same same' : α → α → Prop} (hle : ∀ a b, same a b → same' a b)
    {t t' : JsonTree α} (h : Equal same t t') : Equal same' t t' := by
  have hswap : Equal (fun b a => same a b) t' t := h.swap fun _ _ hab => hab
  exact hswap.swap fun _ _ hab => hle _ _ hab

/-! ## Merge patches -/

mutual

/-- `MergePatch` of RFC 7396. A member that the target does not have is patched as
if it were null. -/
def mergePatch (target : JsonTree α) : JsonTree α → JsonTree α
  | object patch => object (fun name => mergeMember (target.members name) (patch name))
  | patch => patch

/-- One round of its loop: what becomes of the member under a name of the patch. -/
def mergeMember (member : Option (JsonTree α)) : Option (JsonTree α) → Option (JsonTree α)
  | none => member
  | some null => none
  | some patch => some (mergePatch (member.getD null) patch)

end

/-! ## Pointers -/

namespace Pointer

/-- The spelling of a character in a reference token. -/
def escapeChar (c : Char) : List Char :=
  if c = '~' then ['~', '0'] else if c = '/' then ['~', '1'] else [c]

def escape (token : List Char) : List Char :=
  token.flatMap escapeChar

/-- The text of a pointer: every token is written after a slash. -/
def text (tokens : List String) : List Char :=
  tokens.flatMap (fun token => '/' :: escape token.toList)

@[simp]
lemma escape_nil : escape [] = [] := rfl

@[simp]
lemma escape_cons (c : Char) (token : List Char) :
    escape (c :: token) = escapeChar c ++ escape token := rfl

lemma slash_notMem_escape (token : List Char) : '/' ∉ escape token := by
  induction token with
  | nil => simp
  | cons c token ih => ?_
  rw [escape_cons, mem_append]
  rintro (hc | hrest)
  · unfold escapeChar at hc
    split_ifs at hc with htilde hslash
    · simp at hc
    · simp at hc
    · exact hslash (mem_singleton.mp hc).symm
  · exact ih hrest

/-- After the first slash a pointer is its tokens separated by slashes. -/
theorem text_cons (token : String) (tokens : List String) : text (token :: tokens) =
      '/' :: ['/'].intercalate ((token :: tokens).map (fun t => escape t.toList)) := by
  induction tokens generalizing token with
  | nil => simp [text, List.intercalate]
  | cons next tokens ih =>
    have hnext := ih next
    rw [text] at hnext ⊢
    rw [flatMap_cons, hnext]
    simp [List.intercalate]

end Pointer

/-- `array-index` of RFC 6901: a zero, or digits of which the first is not zero. -/
def IsIndex (token : String) : Prop :=
  token = "0" ∨ ∃ d digits, token.toList = d :: digits ∧ '1' ≤ d ∧ d ≤ '9' ∧
    ∀ c ∈ digits, c.isDigit = true

/-- The position that an array index stands for. -/
def arrayIndex (token : String) : Option Nat :=
  match token.toList with
  | [] => none
  | ['0'] => some 0
  | d :: digits =>
    if '1' ≤ d ∧ d ≤ '9' ∧ ∀ c ∈ digits, c.isDigit = true then
      some (Str.value 10 (d :: digits))
    else none

variable {token : String}

theorem arrayIndex_eq_some_iff {i : Nat} :
    arrayIndex token = some i ↔ IsIndex token ∧ Str.value 10 token.toList = i := by
  have hzero : token = "0" ↔ token.toList = ['0'] := String.toList_inj.symm
  unfold arrayIndex IsIndex
  rw [hzero]
  split
  case h_1 hnil => simp [hnil]
  case h_2 hone =>
    have hvalue : Str.value 10 ['0'] = 0 := rfl
    simp [hone, hvalue]
  case h_3 d digits hother hcons => split_ifs with hdigits <;> simp_all

lemma IsIndex.digits (h : IsIndex token) :
    token.toList ≠ [] ∧ (∀ c ∈ token.toList, c.isDigit = true) ∧
      (token.toList.head? = some '0' → token.toList = ['0']) := by
  rcases h with rfl | ⟨d, digits, hlist, hlower, hupper, hdigits⟩
  · exact ⟨by decide, all_eq_true.mp rfl, fun _ => rfl⟩
  rw [hlist]
  refine ⟨by simp, ?_, ?_⟩
  · intro c hc
    rcases mem_cons.mp hc with rfl | hc
    · have hone : 49 ≤ c.toNat := hlower
      have hzero : 48 ≤ c.toNat := by omega
      rw [Char.isDigit, Bool.and_eq_true, decide_eq_true_eq, decide_eq_true_eq]
      exact ⟨hzero, hupper⟩
    · exact hdigits c hc
  · intro hzero
    rw [List.head?_cons, Option.some.injEq] at hzero
    subst hzero
    exact absurd hlower (by decide)

lemma isIndex_of_digits (hne : token.toList ≠ []) (hdigits : ∀ c ∈ token.toList, c.isDigit = true)
    (hzero : token.toList.head? = some '0' → token.toList = ['0']) : IsIndex token := by
  rcases hlist : token.toList with _ | ⟨d, digits⟩
  · exact absurd hlist hne
  rw [hlist] at hdigits hzero
  by_cases hd : d = '0'
  · left
    rw [← String.toList_inj, hlist, hzero (by simp [hd])]
    rfl
  right
  have hdigit := hdigits d mem_cons_self
  rw [Char.isDigit, Bool.and_eq_true, decide_eq_true_eq, decide_eq_true_eq] at hdigit
  have hne' : d.toNat ≠ 48 := fun h => hd (Char.toNat_inj.mp h)
  have hlower : 48 ≤ d.toNat := hdigit.1
  have hone : 49 ≤ d.toNat := by omega
  exact ⟨d, digits, hlist, hone, hdigit.2, fun c hc => hdigits c (mem_cons_of_mem _ hc)⟩

/-- Two indices of one position are the same token. -/
theorem arrayIndex_inj {token' : String} {i : Nat} (h : arrayIndex token = some i)
    (h' : arrayIndex token' = some i) : token = token' := by
  have hprinted : ∀ t, arrayIndex t = some i → Nat.toDigits 10 i = t.toList := by
    intro t ht
    obtain ⟨hindex, rfl⟩ := arrayIndex_eq_some_iff.mp ht
    obtain ⟨hne, hdigits, hzero⟩ := hindex.digits
    exact Str.toDigits_value hne (fun c hc => (Str.isDigit_ten c).trans (hdigits c hc)) hzero
  exact String.toList_inj.mp ((hprinted token h).symm.trans (hprinted token' h'))

/-- The value a token refers to inside a value. -/
def child : JsonTree α → String → Option (JsonTree α)
  | array items, token => (arrayIndex token).bind (fun i => items[i]?)
  | t, token => t.members token

/-- The value a pointer refers to. -/
def locate : JsonTree α → List String → Option (JsonTree α)
  | t, [] => some t
  | t, token :: rest => (t.child token).bind (fun c => c.locate rest)

/-! ## Patches -/

/-- The same value with another child under a token that refers to one. -/
def withChild : JsonTree α → String → JsonTree α → JsonTree α
  | array items, token, c =>
    match arrayIndex token with
    | some i => array (items.set i c)
    | none => array items
  | object members, token, c => object (Function.update members token (some c))
  | t, _, _ => t

/-- Apply a change at the last token of a path, inside the value that the tokens
before it refer to. -/
def edit (change : JsonTree α → String → Option (JsonTree α)) :
    JsonTree α → List String → Option (JsonTree α)
  | _, [] => none
  | t, [token] => change t token
  | t, token :: rest => (t.child token).bind (fun c => (edit change c rest).map (t.withChild token))

lemma edit_cons (change : JsonTree α → String → Option (JsonTree α)) (t : JsonTree α)
    (token next : String) (rest : List String) : edit change t (token :: next :: rest) =
      (t.child token).bind (fun c => (edit change c (next :: rest)).map (t.withChild token)) := rfl

/-- `add` inside one value: a member is set, an item is inserted, and the token
`-` stands for the place after the last item. -/
def addChild (value : JsonTree α) : JsonTree α → String → Option (JsonTree α)
  | object members, token => some (object (Function.update members token (some value)))
  | array items, token =>
    if token = "-" then some (array (items ++ [value]))
    else
      match arrayIndex token with
      | some i => if i ≤ items.length then some (array (items.insertIdx i value)) else none
      | none => none
  | _, _ => none

/-- `remove` inside one value. -/
def removeChild : JsonTree α → String → Option (JsonTree α)
  | object members, token =>
    if (members token).isSome then some (object (Function.update members token none)) else none
  | array items, token =>
    match arrayIndex token with
    | some i => if i < items.length then some (array (items.eraseIdx i)) else none
    | none => none
  | _, _ => none

/-- `replace` inside one value. -/
def replaceChild (value : JsonTree α) (t : JsonTree α) (token : String) : Option (JsonTree α) :=
  if (t.child token).isSome then some (t.withChild token value) else none

/-- The operations of RFC 6902 that change a document. -/
inductive Operation (α : Type) where
  | add (path : List String) (value : JsonTree α)
  | remove (path : List String)
  | replace (path : List String) (value : JsonTree α)
  | copy (source path : List String)
  | move (source path : List String)

/-- `add`: at the root the whole document is replaced. -/
def add (t : JsonTree α) (path : List String) (value : JsonTree α) : Option (JsonTree α) :=
  match path with
  | [] => some value
  | path => t.edit (addChild value) path

/-- `replace`: at the root the whole document is replaced. -/
def replace (t : JsonTree α) (path : List String) (value : JsonTree α) : Option (JsonTree α) :=
  match path with
  | [] => some value
  | path => t.edit (replaceChild value) path

/-- `remove` below the root; the standard does not say what is left when the root is removed. -/
def remove (t : JsonTree α) (path : List String) : Option (JsonTree α) :=
  t.edit removeChild path

namespace Operation

/-- Apply one operation. A value is not moved into one of its own children; the document may
be moved to where it is. -/
def apply (t : JsonTree α) : Operation α → Option (JsonTree α)
  | add path value => t.add path value
  | remove path => t.remove path
  | replace path value => t.replace path value
  | copy source path => (t.locate source).bind (t.add path)
  | move source path =>
    if source <+: path ∧ source ≠ path then none
    else if source = [] then some t
    else
      (t.locate source).bind (fun value =>
        (t.remove source).bind (fun t' => t'.add path value))

/-- The pointers an operation uses. -/
def pointers : Operation α → List (List String)
  | add path _ => [path]
  | remove path => [path]
  | replace path _ => [path]
  | copy source path => [source, path]
  | move source path => [source, path]

end Operation

/-- Apply operations from left to right. -/
def applyAll (t : JsonTree α) (operations : List (Operation α)) : Option (JsonTree α) :=
  operations.foldlM Operation.apply t

end JsonTree
