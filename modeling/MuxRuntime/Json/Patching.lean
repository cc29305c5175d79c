import MuxRuntime.Json.Indices

/-!
# Patches against RFC 6902

The operations of a patch, compared with the operations of the standard on trees. Each
walk changes one place and puts the changed children back on its way out, which is what
`JsonTree.edit` does.
-/

namespace MuxRuntime

open List JsonTree Value Loop

variable {env : Runtime}

/-! ## Pointer texts -/

lemma slash_notMem_splitOn {part chars : List Char} (h : part ∈ chars.splitOn '/') :
    '/' ∉ part := by
  induction chars generalizing part with
  | nil => simp_all
  | cons c chars ih => ?_
  rw [List.splitOn, splitOnP_cons_eq_if_modifyHead] at h
  by_cases hc : c = '/'
  · subst hc
    simp only [BEq.rfl, if_true, mem_cons] at h
    rcases h with rfl | h
    · simp
    · exact ih h
  rw [if_neg (by simpa using hc)] at h
  rcases hparts : List.splitOnP (· == '/') chars with _ | ⟨first, parts⟩
  · exact absurd hparts (splitOn_ne_nil '/' chars)
  have hinner : ∀ part ∈ first :: parts, '/' ∉ part := by
    intro part hpart
    apply ih
    rw [List.splitOn, hparts]
    exact hpart
  rw [hparts, modifyHead_cons] at h
  rcases mem_cons.mp h with rfl | h
  · simp [Ne.symm hc, hinner first mem_cons_self]
  · exact hinner part (mem_cons_of_mem _ h)

lemma unescapeToken_escape (token : List Char) :
    unescapeToken (Pointer.escape token) = .ok token := by
  induction token with
  | nil => rfl
  | cons c token ih => ?_
  rw [Pointer.escape_cons, Pointer.escapeChar]
  by_cases htilde : c = '~'
  · subst htilde
    simp [unescapeToken, ih, Except.map]
  · by_cases hslash : c = '/'
    · subst hslash
      simp [unescapeToken, ih, Except.map]
    · simp [htilde, hslash, unescapeToken, ih, Except.map]

lemma escape_of_unescapeToken {raw token : List Char} (hslash : '/' ∉ raw)
    (h : unescapeToken raw = .ok token) : raw = Pointer.escape token := by
  fun_induction unescapeToken raw generalizing token with
  | case1 =>
    cases h
    rfl
  | case2 chars ih | case3 chars ih =>
    obtain ⟨rest, hrest, rfl⟩ := map_eq_ok h
    rw [ih (by simp_all) hrest]
    rfl
  | case4 chars => cases h
  | case5 ch chars hzero hone htilde ih =>
    obtain ⟨rest, hrest, rfl⟩ := map_eq_ok h
    have hch : ch ≠ '~' := fun hch => htilde hch
    have hch' : ch ≠ '/' := fun hch' => hslash (by simp [hch'])
    rw [ih (by simp_all) hrest, Pointer.escape_cons, Pointer.escapeChar, if_neg hch, if_neg hch']
    rfl

/-- The parts between the slashes are decoded one by one, within the limit. -/
lemma decodeTokens_eq_ok_iff {parts : List (List Char)} {before tokens : List String}
    (hparts : ∀ part ∈ parts, '/' ∉ part) (hbefore : before.length ≤ maxJsonTokens) :
    decodeTokens parts before = .ok tokens ↔ ∃ decoded, tokens = before ++ decoded ∧
        parts = decoded.map (fun token => Pointer.escape token.toList) ∧
          tokens.length ≤ maxJsonTokens := by
  induction parts generalizing before with
  | nil =>
    simp only [decodeTokens, Except.ok.injEq]
    constructor
    · rintro rfl
      exact ⟨[], by simp, rfl, hbefore⟩
    · rintro ⟨decoded, rfl, hnil, -⟩
      rw [map_eq_nil_iff.mp hnil.symm, append_nil]
  | cons raw parts ih => ?_
  rw [decodeTokens]
  have htail : ∀ part ∈ parts, '/' ∉ part := fun part hpart => hparts part (mem_cons_of_mem _ hpart)
  by_cases hlimit : maxJsonTokens ≤ before.length
  · rw [if_pos hlimit]
    simp only [reduceCtorEq, false_iff]
    rintro ⟨decoded, rfl, hmap, hlength⟩
    have hdecoded := congrArg List.length hmap
    simp only [length_cons, length_map, length_append] at hdecoded hlength
    omega
  rw [if_neg hlimit]
  constructor
  · intro h
    rcases hraw : unescapeToken raw with _ | token
    · simp [hraw] at h
    rw [hraw] at h
    obtain ⟨decoded, rfl, hmap, hlength⟩ := (ih htail (by simp; omega)).mp h
    refine ⟨String.ofList token :: decoded, by simp, ?_, hlength⟩
    rw [map_cons, String.toList_ofList, ← hmap,
      ← escape_of_unescapeToken (hparts raw mem_cons_self) hraw]
  · rintro ⟨decoded, rfl, hmap, hlength⟩
    rcases decoded with _ | ⟨token, decoded⟩
    · cases hmap
    rw [map_cons, List.cons.injEq] at hmap
    rw [hmap.1, unescapeToken_escape]
    exact (ih htail (by simp; omega)).mpr
      ⟨decoded, by simp, hmap.2, by simpa using hlength⟩

/-- A pointer of a size that the code decodes. -/
def Fits (tokens : List String) : Prop :=
  (String.ofList (Pointer.text tokens)).utf8ByteSize ≤ maxJsonInputBytes ∧
    tokens.length ≤ maxJsonTokens

/-- The code decodes exactly the pointers, up to its limits. -/
theorem decodePointerText_eq_ok_iff {text : String} {tokens : List String} :
    decodePointerText text = .ok tokens ↔ text.toList = Pointer.text tokens ∧ Fits tokens := by
  have hsize : text.toList = Pointer.text tokens →
      (String.ofList (Pointer.text tokens)).utf8ByteSize = text.utf8ByteSize := by
    intro htext
    rw [← htext, String.ofList_toList]
  unfold decodePointerText
  by_cases hlimit : maxJsonInputBytes < text.utf8ByteSize
  · rw [if_pos hlimit]
    simp only [reduceCtorEq, false_iff]
    rintro ⟨htext, hfits, -⟩
    rw [hsize htext] at hfits
    omega
  rw [if_neg hlimit]
  have hslashes : ∀ decoded : List String, decoded ≠ [] →
      '/' :: ['/'].intercalate (decoded.map (fun t => Pointer.escape t.toList)) =
        Pointer.text decoded := by
    intro decoded hne
    rcases decoded with _ | ⟨token, decoded⟩
    · exact absurd rfl hne
    · exact (Pointer.text_cons token decoded).symm
  have hfits : text.toList = Pointer.text tokens → tokens.length ≤ maxJsonTokens → Fits tokens :=
    fun htext hlength => ⟨by rw [hsize htext]; omega, hlength⟩
  split
  case h_1 hnil =>
    constructor
    · intro h
      cases h
      exact ⟨hnil, hfits hnil (Nat.zero_le _)⟩
    · rintro ⟨htext, -⟩
      rcases tokens with _ | ⟨token, tokens⟩
      · rfl
      · rw [hnil] at htext
        cases htext
  case h_2 rest hlist =>
    rw [decodeTokens_eq_ok_iff (fun _ => slash_notMem_splitOn) (Nat.zero_le _)]
    constructor
    · rintro ⟨decoded, hdecoded, hmap, hlength⟩
      obtain rfl : tokens = decoded := hdecoded
      have hne : tokens ≠ [] := by
        rintro rfl
        exact splitOn_ne_nil '/' rest hmap
      have htext : text.toList = Pointer.text tokens := by
        rw [← hslashes tokens hne, ← hmap, intercalate_splitOn, hlist]
      exact ⟨htext, hfits htext hlength⟩
    · rintro ⟨htext, -, hlength⟩
      refine ⟨tokens, rfl, ?_, hlength⟩
      have hne : tokens ≠ [] := by
        rintro rfl
        rw [hlist] at htext
        cases htext
      rw [hlist, ← hslashes tokens hne, List.cons.injEq] at htext
      rw [htext.2]
      apply splitOn_intercalate
      · intro part hpart
        obtain ⟨token, -, rfl⟩ := mem_map.mp hpart
        exact Pointer.slash_notMem_escape _
      · simpa using hne
  case h_3 hnil hslash =>
    simp only [reduceCtorEq, false_iff]
    rintro ⟨htext, -⟩
    rcases tokens with _ | ⟨token, tokens⟩
    · exact hnil htext
    · exact hslash _ htext

/-! ## Walks as edits of the tree -/

/-- The token does not begin with a plus sign. -/
def Unsigned (token : String) : Prop :=
  token.toList.head? ≠ some '+'

lemma Unsigned.not_signedNumeral {token : String} (h : Unsigned token) (i : Nat) :
    ¬ SignedNumeral token i := by
  rintro ⟨digits, hlist, -⟩
  exact h (by rw [hlist]; rfl)

variable {n m : Nat} {v : Value} {token : String}

variable {length : Nat}

/-- In arrays of a length that the machine can count, every array index is read. -/
lemma pointerIndex_unsigned (hlength : length ≤ usizeMax + 1) (hsign : Unsigned token)
    {i : Fin length} :
    pointerIndex token length false = .ok (some i) ↔ arrayIndex token = some i.val := by
  have hmax : i.val ≤ usizeMax := by omega
  rw [pointerIndex_eq_some_iff]
  constructor
  · rintro ⟨hindex | hsigned, -⟩
    · exact hindex
    · exact absurd hsigned (hsign.not_signedNumeral _)
  · exact fun hindex => ⟨.inl hindex, hmax⟩

lemma insertIndex_unsigned {i : Nat} (hlength : length ≤ usizeMax) (hsign : Unsigned token) :
    insertIndex token length = .ok (some i) ↔ arrayIndex token = some i ∧ i ≤ length := by
  rw [insertIndex_eq_some_iff]
  constructor
  · rintro ⟨hindex | hsigned, -, hle⟩
    · exact ⟨hindex, hle⟩
    · exact absurd hsigned (hsign.not_signedNumeral _)
  · exact fun h => ⟨.inl h.1, by omega, h.2⟩

lemma pointerIndex_false_ne_none (token : String) (length : Nat) :
    pointerIndex token length false ≠ .ok none := by
  intro h
  exact absurd (pointerIndex_eq_none_iff.mp h).1 (by simp)

lemma not_lt_of_pointerIndex_error (hlength : length ≤ usizeMax + 1) (hsign : Unsigned token)
    {e : String} (h : pointerIndex token length false = .error e) {i : Nat}
    (harray : arrayIndex token = some i) : ¬ i < length := by
  intro hlt
  have hread : pointerIndex token length false = .ok (some ⟨i, hlt⟩) :=
    (pointerIndex_unsigned hlength hsign).mpr harray
  rw [h] at hread
  cases hread

/-- A result follows the standard: there is one if the standard has one, and it is a
document that represents the standard's. -/
structure Tracks (m : Nat) (x : Option Value) (t : Option (JsonTree Value)) : Prop where
  map_tree : x.map tree = t
  document : ∀ {v}, x = some v → Document m v

variable {x : Option Value} {t : Option (JsonTree Value)} {c : Value}

lemma Tracks.refused : Tracks m none none := ⟨rfl, nofun⟩

lemma Tracks.given (hv : Document m v) : Tracks m (some v) (some (tree v)) :=
  ⟨rfl, fun h => Option.some.inj h ▸ hv⟩

lemma Tracks.mono (h : Tracks n x t) (hle : n ≤ m) : Tracks m x t :=
  ⟨h.map_tree, fun hx => (h.document hx).mono hle⟩

lemma Tracks.bind {f : Value → Option Value} {g : JsonTree Value → Option (JsonTree Value)}
    (h : Tracks n x t) (hf : ∀ c, x = some c → Document n c → Tracks m (f c) (g (tree c))) :
    Tracks m (x.bind f) (t.bind g) := by
  rcases h with ⟨rfl, hd⟩
  cases x with
  | none => exact .refused
  | some c => exact hf c rfl (hd rfl)

variable (env) in
lemma tracks_stepChild (hd : Document n v) (hn : n ≤ usizeMax + 1) (hsign : Unsigned token) :
    Tracks n (stepChild env v token) ((tree v).child token) := by
  cases hd with
  | @map s entries hnamed hvalues =>
    rw [stepChild, mapGet_string, tree_map]
    refine ⟨?_, Document.member (.map (s := s) hnamed hvalues)⟩
    rw [← treeMembers_eq]
    rfl
  | @list items hlength hitems =>
    have hbound : items.length ≤ usizeMax + 1 := by omega
    rw [stepChild, tree_list, child]
    cases hindex : pointerIndex token items.length false with
    | error e =>
      refine ⟨?_, fun hc => by cases hc⟩
      cases harray : arrayIndex token with
      | none => rfl
      | some i => simp [not_lt_of_pointerIndex_error hbound hsign hindex harray]
    | ok place => ?_
    rcases place with _ | i
    · exact absurd hindex (pointerIndex_false_ne_none _ _)
    rw [(pointerIndex_unsigned hbound hsign).mp hindex]
    refine ⟨by simp, fun hc => ?_⟩
    cases hc
    exact hitems _ (get_mem _ _)
  | _ => exact ⟨by simp [stepChild, tree, child, members], by simp [stepChild]⟩

/-- A child is a member or an item. -/
lemma stepChild_cases (hstep : stepChild env v token = some c) :
    (∃ s entries, v = .map s entries ∧ mapGet env (eq env) s entries (.string token) = some c) ∨
      ∃ items i, v = .list items ∧ pointerIndex token items.length false = .ok (some i) ∧
        items.get i = c := by
  cases v with
  | map s entries => exact .inl ⟨s, entries, rfl, hstep⟩
  | list items =>
    rw [stepChild] at hstep
    split at hstep
    · exact .inr ⟨items, _, rfl, by assumption, Option.some.inj hstep⟩
    · cases hstep
  | _ => simp [stepChild] at hstep

lemma tree_putChild (hd : Document n v) (hn : n ≤ usizeMax + 1) (hsign : Unsigned token)
    (hstep : stepChild env v token = some c) (c' : Value) :
    tree (putChild env v token c') = (tree v).withChild token (tree c') := by
  rcases stepChild_cases hstep with ⟨s, entries, rfl, -⟩ | ⟨items, i, rfl, hindex, -⟩
  · rw [putChild, tree_map, tree_map, treeMembers_mapInsert]
    rfl
  · cases hd with
    | list hlength _ =>
      have harray := (pointerIndex_unsigned (by omega) hsign).mp hindex
      simp only [putChild, hindex, tree_list, withChild, harray, map_set]

lemma Document.putChild (hd : Document n v) (hle : n ≤ m) (hc : Document m c) :
    Document m (putChild env v token c) := by
  have hv := hd.mono hle
  cases hd with
  | @map s entries hnamed hvalues => exact hv.mapInsert env token hc
  | @list items hlength hitems =>
    rw [MuxRuntime.putChild]
    split
    · refine .list (by simp only [length_set]; omega) ?_
      intro w hw
      rcases mem_or_eq_of_mem_set hw with hw | rfl
      · exact hv.item hw
      · exact hc
    · exact hv
  | _ => exact hv

/-- A child that follows the standard is put back as the standard does. -/
lemma Tracks.putChild (h : Tracks m x t) (hd : Document n v) (hn : n ≤ usizeMax + 1)
    (hle : n ≤ m) (hsign : Unsigned token) (hstep : stepChild env v token = some c) :
    Tracks m (x.map (putChild env v token)) (t.map ((tree v).withChild token)) := by
  rcases h with ⟨rfl, hc⟩
  rcases x with _ | c'
  · exact .refused
  rw [Option.map_some, Option.map_some, Option.map_some, ← tree_putChild hd hn hsign hstep]
  exact .given (hd.putChild hle (hc rfl))

/-- A walk that changes one place: before its last token it goes on in the child and
puts the result back. -/
structure EditsTree (env : Runtime) (n m : Nat) (walk : Value → List String → Option Value)
    (change : JsonTree Value → String → Option (JsonTree Value)) : Prop where
  cons : ∀ v token next rest, walk v (token :: next :: rest) =
    (stepChild env v token).bind (fun c => (walk c (next :: rest)).map (putChild env v token))
  last : ∀ v token, Document n v → Unsigned token → Tracks m (walk v [token]) (change (tree v) token)

variable {walk : Value → List String → Option Value}
  {change : JsonTree Value → String → Option (JsonTree Value)} {tokens : List String}

/-- A walk is an edit of the tree if it is one at its last token. -/
theorem EditsTree.edit (h : EditsTree env n m walk change) (hn : n ≤ usizeMax + 1) (hle : n ≤ m)
    (hd : Document n v) (hne : tokens ≠ []) (hsign : ∀ token ∈ tokens, Unsigned token) :
    Tracks m (walk v tokens) ((tree v).edit change tokens) := by
  induction tokens generalizing v with
  | nil => exact absurd rfl hne
  | cons token rest ih => ?_
  rw [forall_mem_cons] at hsign
  rcases rest with _ | ⟨next, rest⟩
  · exact h.last v token hd hsign.1
  rw [h.cons, edit_cons]
  exact (tracks_stepChild env hd hn hsign.1).bind (fun c hstep hc =>
    (ih hc (by simp) hsign.2).putChild hd hn hle hsign.1 hstep)

/-! ## The four walks -/

variable (env) in
/-- Reading along a pointer. -/
lemma tracks_pointerGet (hd : Document n v) (hn : n ≤ usizeMax + 1)
    (hsign : ∀ token ∈ tokens, Unsigned token) :
    Tracks n (pointerGet env v tokens).toOption ((tree v).locate tokens) := by
  induction tokens generalizing v with
  | nil =>
    rw [pointerGet, hd.clone_eq]
    exact .given hd
  | cons token rest ih => ?_
  have hcons : (pointerGet env v (token :: rest)).toOption =
      (stepChild env v token).bind (fun c => (pointerGet env c rest).toOption) := by
    cases v with
    | map s entries =>
      rw [pointerGet, stepChild]
      cases mapGet env (eq env) s entries (.string token) <;> rfl
    | list items =>
      rw [pointerGet, stepChild]
      cases hindex : pointerIndex token items.length false with
      | error e => rfl
      | ok place => cases place <;> rfl
    | _ => simp [pointerGet, stepChild, Except.toOption]
  rw [forall_mem_cons] at hsign
  rw [hcons, locate]
  exact (tracks_stepChild env hd hn hsign.1).bind (fun c _ hc => ih hc hsign.2)

lemma walk_cons (op : PointerOp) (hop : op ≠ .get) (argument v : Value) (token next : String)
    (rest : List String) : (op.run env argument v (token :: next :: rest)).toOption =
      (stepChild env v token).bind (fun c =>
        (op.run env argument c (next :: rest)).toOption.map (putChild env v token)) := by
  rw [run_cons, rebuild_of_ne hop]

lemma tracks_insertItem {items : List Value} {addition : Value} (hd : Document n (.list items))
    (ha : Document n addition) (hlength : items.length < n) (hn : n ≤ usizeMax + 1)
    (hsign : Unsigned token) :
    Tracks (n + 1) ((insertItem items token addition).toOption.map Value.list)
      (addChild (tree addition) (tree (.list items)) token) := by
  have hbound : items.length ≤ usizeMax := by omega
  have hitem : ∀ w, w = addition ∨ w ∈ items → Document (n + 1) w := by
    rintro w (rfl | hw)
    · exact ha.mono (Nat.le_succ n)
    · exact (hd.item hw).mono (Nat.le_succ n)
  rw [insertItem, tree_list, addChild]
  by_cases hdash : token = "-"
  · have hplace : insertIndex token items.length = .ok none := insertIndex_eq_none_iff.mpr hdash
    have hlist : Document (n + 1) (.list (items ++ [addition])) :=
      .list (by simp; omega) (fun w hw => hitem w (by simpa [or_comm] using hw))
    have hgiven := Tracks.given hlist
    rw [tree_list, map_append] at hgiven
    rw [hplace, if_pos hdash]
    exact hgiven
  · rw [if_neg hdash, length_map]
    cases hindex : insertIndex token items.length with
    | error e =>
      refine ⟨?_, fun hc => by cases hc⟩
      rcases harray : arrayIndex token with _ | i
      · rfl
      have hout : ¬ i ≤ items.length := by
        intro hle
        rw [(insertIndex_unsigned hbound hsign).mpr ⟨harray, hle⟩] at hindex
        cases hindex
      simp [Except.toOption, hout]
    | ok place => ?_
    rcases place with _ | i
    · exact absurd (insertIndex_eq_none_iff.mp hindex) hdash
    obtain ⟨harray, hle⟩ := (insertIndex_unsigned hbound hsign).mp hindex
    have hlist : Document (n + 1) (.list (items.insertIdx i addition)) :=
      .list (by rw [length_insertIdx, if_pos hle]; omega)
        (fun w hw => hitem w ((mem_insertIdx hle).mp hw))
    have hgiven := Tracks.given hlist
    rw [tree_list, map_insertIdx] at hgiven
    simp only [harray, hle, if_true]
    exact hgiven

lemma pointerAdd_editsTree {addition : Value} (ha : Document n addition) (hn : n ≤ usizeMax + 1) :
    EditsTree env n (n + 1) (fun v tokens => (pointerAdd env v tokens addition).toOption)
      (addChild (tree addition)) where
  cons v token next rest := walk_cons .add (by simp) addition v token next rest
  last v token hd hsign := by
    have hd' := hd
    cases hd with
    | @map s entries hnamed hvalues =>
      have hgiven := Tracks.given ((hd'.mono (Nat.le_succ n)).mapInsert env token
        (ha.mono (Nat.le_succ n)))
      rw [tree_map, treeMembers_mapInsert] at hgiven
      simp only [pointerAdd, ha.clone_eq, tree_map]
      exact hgiven
    | @list items hlength hitems =>
      have htracks := tracks_insertItem hd' ha hlength hn hsign
      simp only [pointerAdd, ha.clone_eq]
      cases hinsert : insertItem items token addition <;> rwa [hinsert] at htracks
    | _ => exact ⟨by simp [pointerAdd, Except.toOption, tree, addChild],
        by simp [pointerAdd, Except.toOption]⟩

lemma pointerRemove_editsTree (hn : n ≤ usizeMax + 1) :
    EditsTree env n n (fun v tokens => ((pointerRemove env v tokens).map Prod.snd).toOption)
      removeChild where
  cons v token next rest := walk_cons .remove (by simp) .unit v token next rest
  last v token hd hsign := by
    have hd' := hd
    cases hd with
    | @map s entries hnamed hvalues =>
      simp only [pointerRemove, mapGet_string, tree_map, removeChild, treeMembers_eq]
      rcases hmember : member entries token with _ | c
      · exact .refused
      have hgiven := Tracks.given (hd'.mapRemove env (.string token))
      rw [tree_map, treeMembers_mapRemove s hnamed] at hgiven
      simpa [Except.map, Except.toOption] using hgiven
    | @list items hlength hitems =>
      have hbound : items.length ≤ usizeMax + 1 := by omega
      simp only [pointerRemove, tree_list, removeChild, length_map]
      cases hindex : pointerIndex token items.length false with
      | error e =>
        refine ⟨?_, fun hc => by cases hc⟩
        cases harray : arrayIndex token with
        | none => rfl
        | some i =>
          simp [Except.map, Except.toOption,
            not_lt_of_pointerIndex_error hbound hsign hindex harray]
      | ok place => ?_
      rcases place with _ | i
      · exact absurd hindex (pointerIndex_false_ne_none _ _)
      have hlist : Document n (.list (items.eraseIdx i)) := by
        refine .list ?_ (fun w hw => hitems w (mem_of_mem_eraseIdx hw))
        have := length_eraseIdx_le items i.val
        omega
      have hgiven := Tracks.given hlist
      rw [tree_list, ← eraseIdx_map] at hgiven
      simpa [Except.map, Except.toOption, (pointerIndex_unsigned hbound hsign).mp hindex]
        using hgiven
    | _ => exact ⟨by simp [pointerRemove, Except.map, Except.toOption, tree, removeChild],
        by simp [pointerRemove, Except.map, Except.toOption]⟩

/-- A list position that can be read can be written. -/
lemma pointerIndex_append {i : Fin length} (h : pointerIndex token length false = .ok (some i))
    (allowAppend : Bool) : pointerIndex token length allowAppend = .ok (some i) :=
  pointerIndex_eq_some_iff.mpr (pointerIndex_eq_some_iff.mp h)

/-- Reading a place and then writing it, at the last token of a path. -/
lemma getSet_last {replacement : Value} (ha : Document n replacement) (hd : Document n v) :
    (pointerGet env v [token]).toOption.bind
        (fun _ => (pointerSet env v [token] replacement).toOption) =
      (stepChild env v token).map (fun _ => putChild env v token replacement) := by
  cases hd with
  | @map s entries hnamed hvalues =>
    simp only [pointerGet, pointerSet, stepChild, putChild, ha.clone_eq]
    cases mapGet env (eq env) s entries (.string token) <;> rfl
  | @list items hlength hitems =>
    simp only [pointerGet, pointerSet, stepChild, putChild, ha.clone_eq]
    rcases hindex : pointerIndex token items.length false with _ | place
    · rfl
    cases place with
    | none => rfl
    | some i =>
      rw [pointerIndex_append hindex]
      rfl
  | _ => simp [pointerGet, stepChild, Except.toOption]

lemma pointerReplace_editsTree {replacement : Value} (ha : Document n replacement)
    (hn : n ≤ usizeMax + 1) : EditsTree env n n
      (fun v tokens => (pointerGet env v tokens).toOption.bind
        (fun _ => (pointerSet env v tokens replacement).toOption))
      (replaceChild (tree replacement)) where
  cons v token next rest := by
    have hget : (pointerGet env v (token :: next :: rest)).toOption = _ :=
      run_cons .get replacement v token next rest
    have hset : (pointerSet env v (token :: next :: rest) replacement).toOption = _ :=
      walk_cons .set (by simp) replacement v token next rest
    simp only [hget, hset, rebuild_get, Option.map_id_fun, id_eq, PointerOp.run]
    cases stepChild env v token with
    | none => rfl
    | some c =>
      simp only [Option.bind_some]
      cases (pointerGet env c (next :: rest)).toOption <;> rfl
  last v token hd hsign := by
    rw [getSet_last ha hd, replaceChild, ← (tracks_stepChild env hd hn hsign).map_tree]
    cases hstep : stepChild env v token with
    | none => exact .refused
    | some c => exact (Tracks.given ha).putChild hd hn (Nat.le_refl n) hsign hstep

/-! ## Operations of the standard -/

variable {document replacement addition : Value}

section Walks

variable (env) (hn : n ≤ usizeMax + 1) (hd : Document n document)
  (hsign : ∀ token ∈ tokens, Unsigned token)

include hn hd hsign

/-- Adding, wherever the path leads. -/
lemma tracks_pointerAdd (ha : Document n addition) :
    Tracks (n + 1) (pointerAdd env document tokens addition).toOption
      ((tree document).add tokens (tree addition)) := by
  cases tokens with
  | nil =>
    rw [pointerAdd, ha.clone_eq]
    exact .given (ha.mono (Nat.le_succ n))
  | cons token rest => exact (pointerAdd_editsTree ha hn).edit hn (Nat.le_succ n) hd (by simp) hsign

lemma tracks_pointerRemove : Tracks n ((pointerRemove env document tokens).map Prod.snd).toOption
      ((tree document).remove tokens) := by
  cases tokens with
  | nil => exact .refused
  | cons token rest => exact (pointerRemove_editsTree hn).edit hn (Nat.le_refl n) hd (by simp) hsign

lemma tracks_pointerReplace (ha : Document n replacement) :
    Tracks n ((pointerGet env document tokens).toOption.bind
        (fun _ => (pointerSet env document tokens replacement).toOption))
      ((tree document).replace tokens (tree replacement)) := by
  cases tokens with
  | nil =>
    rw [pointerGet, pointerSet, ha.clone_eq]
    exact .given ha
  | cons token rest =>
    exact (pointerReplace_editsTree ha hn).edit hn (Nat.le_refl n) hd (by simp) hsign

end Walks

/-! ## Patch documents -/

/-- The object has a text under the name. -/
def Says (fields : String → Option (JsonTree Value)) (name text : String) : Prop :=
  fields name = some (.scalar (.string text))

/-- The object has a pointer under the name. -/
def Points (fields : String → Option (JsonTree Value)) (name : String) (tokens : List String) :
    Prop :=
  ∃ text, Says fields name text ∧ text.toList = Pointer.text tokens

/-- The operation that an object of a patch stands for. -/
inductive Denotes (fields : String → Option (JsonTree Value)) : Operation Value → Prop
  | add {path : List String} {value : JsonTree Value} (hop : Says fields "op" "add")
      (hpath : Points fields "path" path) (hvalue : fields "value" = some value) :
      Denotes fields (.add path value)
  | remove {path : List String} (hop : Says fields "op" "remove")
      (hpath : Points fields "path" path) : Denotes fields (.remove path)
  | replace {path : List String} {value : JsonTree Value} (hop : Says fields "op" "replace")
      (hpath : Points fields "path" path) (hvalue : fields "value" = some value) :
      Denotes fields (.replace path value)
  | copy {source path : List String} (hop : Says fields "op" "copy")
      (hpath : Points fields "path" path) (hsource : Points fields "from" source) :
      Denotes fields (.copy source path)
  | move {source path : List String} (hop : Says fields "op" "move")
      (hpath : Points fields "path" path) (hsource : Points fields "from" source) :
      Denotes fields (.move source path)

lemma Denotes.says {fields : String → Option (JsonTree Value)} {op : Operation Value}
    (h : Denotes fields op) : ∃ text, Says fields "op" text := by
  cases h with
  | add hop | remove hop | replace hop | copy hop | move hop => exact ⟨_, hop⟩

/-- No token of its pointers begins with a plus sign, it is not a test, and it does not remove or
move the root. -/
structure Plain (fields : String → Option (JsonTree Value)) : Prop where
  path : ∀ tokens, Points fields "path" tokens → ∀ token ∈ tokens, Unsigned token
  source : ∀ tokens, Points fields "from" tokens → ∀ token ∈ tokens, Unsigned token
  untested : ¬ Says fields "op" "test"
  removes : Says fields "op" "remove" → ¬ Points fields "path" []
  moves : Says fields "op" "move" → ¬ Points fields "from" []

variable {s : RandomState} {fields : List (Value × Value)} {name text : String}
  {operation : Value}

lemma tree_eq_string_iff : tree v = .scalar (.string text) ↔ v = .string text := by
  cases v <;> simp [tree]

variable {value : Value}

lemma patchField_eq_ok_iff :
    patchField env s fields name = .ok value ↔ member fields name = some value := by
  rw [patchField, mapGet_string]
  cases member fields name <;> simp

lemma patchText_eq_ok_iff :
    patchText env s fields name = .ok text ↔ Says (treeMembers fields) name text := by
  have hspec : Says (treeMembers fields) name text ↔ member fields name = some (.string text) := by
    rw [Says, treeMembers_eq, Option.map_eq_some_iff]
    constructor
    · rintro ⟨v, hv, htree⟩
      rw [hv, tree_eq_string_iff.mp htree]
    · exact fun h => ⟨_, h, tree_eq_string_iff.mpr rfl⟩
  have hfield : patchField env s fields name = .ok (.string text) ↔
      member fields name = some (.string text) := patchField_eq_ok_iff
  rw [hspec, ← hfield, patchText]
  cases patchField env s fields name with
  | error e => simp
  | ok value => cases value <;> simp

lemma points_iff :
    (∃ text, patchText env s fields name = .ok text ∧ decodePointerText text = .ok tokens) ↔
      Points (treeMembers fields) name tokens ∧ Fits tokens := by
  simp only [patchText_eq_ok_iff, decodePointerText_eq_ok_iff, Points]
  constructor
  · rintro ⟨text, hspec, htext, hfits⟩
    exact ⟨⟨text, hspec, htext⟩, hfits⟩
  · rintro ⟨⟨text, hspec, htext⟩, hfits⟩
    exact ⟨text, hspec, htext, hfits⟩

/-- The test whether a value would be moved into one of its own children. -/
lemma isOwnChild_iff {source path : List String} :
    (source.length < path.length && source.isPrefixOf path) = true ↔
      source <+: path ∧ source ≠ path := by
  rw [Bool.and_eq_true, decide_eq_true_eq, List.isPrefixOf_iff_prefix]
  constructor
  · rintro ⟨hlength, hinside⟩
    exact ⟨hinside, fun heq => absurd hlength (by simp [heq])⟩
  · rintro ⟨hinside, hne⟩
    refine ⟨lt_of_le_of_ne hinside.length_le ?_, hinside⟩
    exact fun hlength => hne (hinside.eq_of_length hlength)

/-- All pointers of an operation have a size that the code decodes. -/
def Decodable (op : Operation Value) : Prop :=
  ∀ pointer ∈ op.pointers, Fits pointer

/-- Only an operation of the standard, within the limits, succeeds. -/
lemma denotes_of_ok {result : Value} (hplain : Plain (tree operation).members)
    (h : applyJsonPatchOperation env document operation = .ok result) :
    ∃ op, Denotes (tree operation).members op ∧ Decodable op := by
  obtain ⟨s, fields, rfl⟩ : ∃ s fields, operation = .map s fields := by
    cases operation with
    | map s fields => exact ⟨s, fields, rfl⟩
    | _ => cases h
  obtain ⟨op, hop, h⟩ := bind_eq_ok h
  obtain ⟨path, hpath, h⟩ := bind_eq_ok h
  obtain ⟨tokens, htokens, h⟩ := bind_eq_ok h
  obtain ⟨hpoints, hfits⟩ := points_iff.mp ⟨path, hpath, htokens⟩
  have hvalue : ∀ {value}, patchField env s fields "value" = .ok value →
      treeMembers fields "value" = some (tree value) := by
    intro value hvalue
    rw [treeMembers_eq, patchField_eq_ok_iff.mp hvalue]
    rfl
  rw [patchText_eq_ok_iff] at hop
  split at h
  · obtain ⟨value, hfield, -⟩ := bind_eq_ok h
    exact ⟨_, .add hop hpoints (hvalue hfield), by simpa [Decodable, Operation.pointers]⟩
  · exact ⟨_, .remove hop hpoints, by simpa [Decodable, Operation.pointers]⟩
  · obtain ⟨found, -, h⟩ := bind_eq_ok h
    obtain ⟨value, hfield, -⟩ := bind_eq_ok h
    exact ⟨_, .replace hop hpoints (hvalue hfield), by simpa [Decodable, Operation.pointers]⟩
  · obtain ⟨source, hsource, h⟩ := bind_eq_ok h
    obtain ⟨sourceTokens, hsourceTokens, -⟩ := bind_eq_ok h
    obtain ⟨hpoints', hfits'⟩ := points_iff.mp ⟨source, hsource, hsourceTokens⟩
    exact ⟨_, .copy hop hpoints hpoints', by simp [Decodable, Operation.pointers, hfits, hfits']⟩
  · obtain ⟨source, hsource, h⟩ := bind_eq_ok h
    obtain ⟨sourceTokens, hsourceTokens, -⟩ := bind_eq_ok h
    obtain ⟨hpoints', hfits'⟩ := points_iff.mp ⟨source, hsource, hsourceTokens⟩
    exact ⟨_, .move hop hpoints hpoints', by simp [Decodable, Operation.pointers, hfits, hfits']⟩
  · exact absurd hop hplain.untested
  · cases h

variable (env) in
/-- Within the limits an operation does what the standard says. -/
theorem tracks_operation (hd : Document n document) (ho : Document n operation)
    (hn : n ≤ usizeMax + 1) (hplain : Plain (tree operation).members) {op : Operation Value}
    (hop : Denotes (tree operation).members op) (hfits : Decodable op) :
    Tracks (n + 1) (applyJsonPatchOperation env document operation).toOption
      (op.apply (tree document)) := by
  obtain ⟨s, fields, rfl⟩ : ∃ s fields, operation = .map s fields := by
    obtain ⟨text, htext⟩ := hop.says
    cases operation with
    | map s fields => exact ⟨s, fields, rfl⟩
    | _ => simp [Says, tree, members] at htext
  have hvalues : ∀ {value : JsonTree Value}, treeMembers fields "value" = some value →
      ∃ v, patchField env s fields "value" = .ok v ∧ Document n v ∧ tree v = value := by
    intro value hvalue
    rw [treeMembers_eq] at hvalue
    obtain ⟨v, hv, htree⟩ := Option.map_eq_some_iff.mp hvalue
    exact ⟨v, patchField_eq_ok_iff.mpr hv, ho.member hv, htree⟩
  have hpointers : ∀ {name : String} {tokens : List String},
      Points (treeMembers fields) name tokens → tokens ∈ op.pointers →
        ∃ text, patchText env s fields name = .ok text ∧ decodePointerText text = .ok tokens :=
    fun hpoints hmem => points_iff.mpr ⟨hpoints, hfits _ hmem⟩
  have hspec : ∀ {text : String}, Says (treeMembers fields) "op" text →
      patchText env s fields "op" = .ok text := fun h => patchText_eq_ok_iff.mpr h
  cases hop with
  | @add path value hop hpath hvalue =>
    obtain ⟨text, htext, htokens⟩ := hpointers hpath (by simp [Operation.pointers])
    obtain ⟨v, hv, ha, rfl⟩ := hvalues hvalue
    simp only [applyJsonPatchOperation, hspec hop, htext, htokens, hv, bind, Except.bind]
    exact tracks_pointerAdd env hn hd (hplain.path path hpath) ha
  | @remove path hop hpath =>
    obtain ⟨text, htext, htokens⟩ := hpointers hpath (by simp [Operation.pointers])
    have hremove := tracks_pointerRemove env hn hd (hplain.path path hpath)
    simp only [applyJsonPatchOperation, hspec hop, htext, htokens, bind, Except.bind]
    refine Tracks.mono ?_ (Nat.le_succ n)
    cases hrun : pointerRemove env document path <;> rwa [hrun] at hremove
  | @replace path value hop hpath hvalue =>
    obtain ⟨text, htext, htokens⟩ := hpointers hpath (by simp [Operation.pointers])
    obtain ⟨v, hv, ha, rfl⟩ := hvalues hvalue
    have hreplace := tracks_pointerReplace env hn hd (hplain.path path hpath) ha
    simp only [applyJsonPatchOperation, hspec hop, htext, htokens, hv, bind, Except.bind]
    refine Tracks.mono ?_ (Nat.le_succ n)
    cases hrun : pointerGet env document path <;> rwa [hrun] at hreplace
  | @copy source path hop hpath hsource =>
    obtain ⟨text, htext, htokens⟩ := hpointers hpath (by simp [Operation.pointers])
    obtain ⟨text', htext', htokens'⟩ := hpointers hsource (by simp [Operation.pointers])
    have hcopy := (tracks_pointerGet env hd hn (hplain.source source hsource)).bind
      (fun c _ hc => tracks_pointerAdd env hn hd (hplain.path path hpath) hc)
    simp only [applyJsonPatchOperation, hspec hop, htext, htokens, htext', htokens', bind,
      Except.bind]
    cases hrun : pointerGet env document source <;> rwa [hrun] at hcopy
  | @move source path hop hpath hsource => ?_
  obtain ⟨text, htext, htokens⟩ := hpointers hpath (by simp [Operation.pointers])
  obtain ⟨text', htext', htokens'⟩ := hpointers hsource (by simp [Operation.pointers])
  have hsign := hplain.source source hsource
  simp only [applyJsonPatchOperation, hspec hop, htext, htokens, htext', htokens', bind,
    Except.bind, isOwnChild_iff, Operation.apply]
  have hroot : source ≠ [] := fun h => hplain.moves hop (h ▸ hsource)
  rw [if_neg hroot]
  split
  · exact .refused
  have hget := tracks_pointerGet env hd hn hsign
  rw [← hget.map_tree]
  rcases hfound : pointerGet env document source with _ | c
  · exact .refused
  have hc : Document n c := hget.document (by rw [hfound]; rfl)
  have hmove := (tracks_pointerRemove env hn hd hsign).bind (g := fun t => t.add path (tree c))
    (fun d _ hd' => tracks_pointerAdd env hn hd' (hplain.path path hpath) hc)
  cases hremove : pointerRemove env document source <;> rwa [hremove] at hmove

/-! ## Whole patches -/

variable {operations : List Value} {t : JsonTree Value}

/-- The operations that a patch document stands for. -/
def Patches (patch : JsonTree Value) (ops : List (Operation Value)) : Prop :=
  ∃ items, patch = .array items ∧ List.Forall₂ (fun item op => Denotes item.members op) items ops

variable (env) in
/-- The operations are applied one after the other; each can make a list longer by one
item. -/
lemma applyOperations_iff (hd : Document n document)
    (hops : ∀ operation ∈ operations, Document n operation)
    (hplain : ∀ operation ∈ operations, Plain (tree operation).members)
    (hn : n + operations.length ≤ usizeMax + 1) :
    (∃ result, applyOperations env document operations = .ok result ∧ tree result = t) ↔
      ∃ ops, List.Forall₂ (fun item op => Denotes item.members op) (operations.map tree) ops ∧
        (∀ op ∈ ops, Decodable op) ∧ applyAll (tree document) ops = some t := by
  induction operations generalizing document n with
  | nil =>
    simp only [applyOperations, Except.ok.injEq, map_nil, forall₂_nil_left_iff]
    constructor
    · rintro ⟨result, rfl, rfl⟩
      exact ⟨[], rfl, by simp, rfl⟩
    · rintro ⟨ops, rfl, -, happly⟩
      exact ⟨document, rfl, Option.some.inj happly⟩
  | cons operation operations ih => ?_
  rw [length_cons] at hn
  rw [forall_mem_cons] at hops hplain
  have htracks := fun op (hop : Denotes _ op) =>
    tracks_operation env hd hops.1 (by omega) hplain.1 hop
  have hrest : ∀ {document'}, Document (n + 1) document' →
      ((∃ result, applyOperations env document' operations = .ok result ∧ tree result = t) ↔ _) :=
    fun hd' => ih hd' (fun o ho => (hops.2 o ho).mono (Nat.le_succ n)) hplain.2 (by omega)
  constructor
  · rintro ⟨result, hresult, htree⟩
    rw [applyOperations] at hresult
    rcases hstep : applyJsonPatchOperation env document operation with _ | candidate
    · simp [hstep] at hresult
    rw [hstep] at hresult
    obtain ⟨op, hop, hfits⟩ := denotes_of_ok hplain.1 hstep
    have hop' := htracks op hop hfits
    rw [hstep] at hop'
    obtain ⟨ops, hdenotes, hdecodable, hall⟩ :=
      (hrest (hop'.document rfl)).mp ⟨result, hresult, htree⟩
    refine ⟨op :: ops, .cons hop hdenotes, forall_mem_cons.mpr ⟨hfits, hdecodable⟩, ?_⟩
    rw [applyAll, foldlM_cons, ← hop'.map_tree]
    exact hall
  · rintro ⟨ops, hdenotes, hdecodable, hall⟩
    rw [map_cons, forall₂_cons_left_iff] at hdenotes
    obtain ⟨op, ops', hop, hdenotes, rfl⟩ := hdenotes
    rw [forall_mem_cons] at hdecodable
    have hop' := htracks op hop hdecodable.1
    rw [applyAll, foldlM_cons, ← hop'.map_tree] at hall
    cases hstep : applyJsonPatchOperation env document operation with
    | error e =>
      rw [hstep] at hall
      cases hall
    | ok candidate =>
      rw [hstep] at hall hop'
      rw [applyOperations, hstep]
      exact (hrest (hop'.document rfl)).mpr ⟨ops', hdenotes, hdecodable.2, hall⟩

lemma isRepresentable_item {T : JsonNumberType env} {h : JsonHeap} {items : List Value}
    (hlist : isRepresentable T h (.list items) = true) (hv : v ∈ items) :
    isRepresentable T h v = true := by
  have hitems : ∃ json, itemsToJson T h items = .ok json := by
    rw [isRepresentable, valueToJson] at hlist
    cases hjson : itemsToJson T h items with
    | error e => simp [hjson, bind, Except.bind, Except.isOk, Except.toBool] at hlist
    | ok json => exact ⟨json, rfl⟩
  clear hlist
  induction items with
  | nil => cases hv
  | cons w items ih => ?_
  obtain ⟨json, hjson⟩ := hitems
  obtain ⟨first, hfirst, hjson⟩ := bind_eq_ok hjson
  obtain ⟨rest, hrest, -⟩ := bind_eq_ok hjson
  rcases mem_cons.mp hv with rfl | hv
  · rw [isRepresentable, hfirst]
    rfl
  · exact ih hv ⟨rest, hrest⟩

lemma patches_list_iff {operations : List Value} {ops : List (Operation Value)} :
    Patches (tree (.list operations)) ops ↔
      List.Forall₂ (fun item op => Denotes item.members op) (operations.map tree) ops := by
  rw [Patches, tree_list]
  constructor
  · rintro ⟨items, hitems, hdenotes⟩
    rw [array.injEq] at hitems
    rwa [hitems]
  · exact fun hdenotes => ⟨_, rfl, hdenotes⟩

/-- Within the limits on pointers, and for patches without tests and without signs in tokens
that leave the root in its place, a patch is applied as RFC 6902 says or not at all. -/
theorem applyPatch_agrees_iff (T : JsonNumberType env) (h : JsonHeap) {document patch : Value}
    (hd : Document (2 ^ 62) document) (hp : Document (2 ^ 62) patch)
    (hpatch : isRepresentable T h patch = true)
    (hplain : ∀ items, tree patch = .array items → ∀ item ∈ items, Plain item.members) :
    (∀ t, (∃ result, muxJsonApplyPatch T h (some document) (some patch) = (some result, .ok ()) ∧
        tree result = t) ↔
      ∃ ops, Patches (tree patch) ops ∧ (∀ op ∈ ops, Decodable op) ∧
        applyAll (tree document) ops = some t) ∧
    ∀ result e, muxJsonApplyPatch T h (some document) (some patch) = (result, .error e) →
      result = some document := by
  by_cases hlist : ∃ operations, patch = .list operations
  · obtain ⟨operations, rfl⟩ := hlist
    have hall : (operations.any fun operation => !isRepresentable T h operation) = false := by
      rw [any_eq_false]
      intro operation hmem
      simp [isRepresentable_item hpatch hmem]
    have hresult : muxJsonApplyPatch T h (some document) (some (.list operations)) =
        Except.casesOn (applyOperations env document operations)
          (fun e => (some document, .error e)) (fun candidate => (some candidate, .ok ())) := by
      cases happly : applyOperations env document operations <;>
        simp [muxJsonApplyPatch, hall, hd.clone_eq, happly]
    have hplain' : ∀ operation ∈ operations, Plain (tree operation).members := by
      intro operation hmem
      exact hplain _ (tree_list operations) _ (mem_map_of_mem hmem)
    have hlength := hp.length_lt
    rw [hresult]
    constructor
    · intro t
      have hops := applyOperations_iff env (t := t) hd (fun o ho => hp.item ho) hplain'
        (by simp only [usizeMax]; omega)
      simp only [patches_list_iff]
      rw [← hops]
      cases applyOperations env document operations with
      | error e => simp
      | ok candidate => simp
    · intro result e herror
      cases hrun : applyOperations env document operations with
      | error e' =>
        rw [hrun] at herror
        cases herror
        rfl
      | ok candidate =>
        rw [hrun] at herror
        cases herror
  · -- A patch that is no list is refused, and is no patch of the standard either.
    have hrefused : muxJsonApplyPatch T h (some document) (some patch) =
        (some document, .error "json patch must be a list of operations") := by
      cases patch with
      | list operations => exact absurd ⟨operations, rfl⟩ hlist
      | _ => rfl
    rw [hrefused]
    constructor
    · intro t
      constructor
      · rintro ⟨result, hresult, -⟩
        cases hresult
      · rintro ⟨ops, ⟨items, hitems, -⟩, -⟩
        cases hp with
        | list => exact absurd ⟨_, rfl⟩ hlist
        | _ => simp [tree] at hitems
    · intro result e herror
      cases herror
      rfl

/-! ## Samples -/

lemma unsigned_of_notMem (h : '+' ∉ Pointer.text tokens) : ∀ token ∈ tokens, Unsigned token := by
  intro token htoken hhead
  apply h
  rw [Pointer.text, mem_flatMap]
  refine ⟨token, htoken, mem_cons_of_mem _ ?_⟩
  obtain ⟨rest, hlist⟩ := List.head?_eq_some_iff.mp hhead
  rw [hlist, Pointer.escape_cons]
  exact mem_append_left _ (by decide)

/-- An object of a patch with one pointer. -/
def addOperation (path : String) (value : Value) : Value :=
  .map ⟨0, 0⟩ [(.string "op", .string "add"), (.string "path", .string path),
    (.string "value", value)]

lemma addOperation_document (path : String) (hv : Document n value) :
    Document n (addOperation path value) := by
  refine .map ⟨by simp, by simp⟩ ?_
  simp only [mem_cons, not_mem_nil, or_false, forall_eq_or_imp, forall_eq]
  exact ⟨.string _, .string _, hv⟩

variable {path : String}

lemma addOperation_path (h : Says (tree (addOperation path value)).members "path" text) :
    text = path := by
  have hpath : (tree (addOperation path value)).members "path" = some (.scalar (.string path)) :=
    rfl
  cases h
  rfl

lemma addOperation_op (h : text ≠ "add") :
    ¬ Says (tree (addOperation path value)).members "op" text := by
  intro hop
  have hadd : (tree (addOperation path value)).members "op" = some (.scalar (.string "add")) := rfl
  rw [Says, hadd] at hop
  exact h (by simpa using hop.symm)

lemma addOperation_plain (hsign : '+' ∉ path.toList) :
    Plain (tree (addOperation path value)).members where
  path tokens hpoints := by
    obtain ⟨text, hspec, htext⟩ := hpoints
    rw [addOperation_path hspec] at htext
    exact unsigned_of_notMem (htext ▸ hsign)
  source tokens hpoints := by
    obtain ⟨text, hspec, -⟩ := hpoints
    cases hspec
  untested := addOperation_op (by decide)
  removes hop := absurd hop (addOperation_op (by decide))
  moves hop := absurd hop (addOperation_op (by decide))

/-- `{"a": [1]}` patched with an addition at `/a/0`. -/
theorem applyPatch_agrees_sample :
    let document := Value.map ⟨0, 0⟩ [(.string "a", .list [.int 1])]
    let patch := Value.list [addOperation "/a/0" (.int 2)]
    let result := Value.map ⟨0, 0⟩ [(.string "a", .list [.int 2, .int 1])]
    muxJsonApplyPatch sampleNumberType .initial (some document) (some patch) =
        (some result, .ok ()) ∧
      ∃ ops, Patches (tree patch) ops ∧ (∀ op ∈ ops, Decodable op) ∧
        applyAll (tree document) ops = some (tree result) := by
  intro document patch result
  have hresult : muxJsonApplyPatch sampleNumberType .initial (some document) (some patch) =
      (some result, .ok ()) := rfl
  have hd : Document (2 ^ 62) document := by
    refine .map ⟨by simp, by simp⟩ ?_
    simp only [mem_singleton, forall_eq]
    exact .list (by simp) (by simp [Document.int])
  have hp : Document (2 ^ 62) patch := by
    refine .list (by simp) ?_
    simp only [mem_singleton, forall_eq]
    exact addOperation_document _ (.int 2)
  have hplain : ∀ items, tree patch = .array items → ∀ item ∈ items, Plain item.members := by
    intro items hitems item hitem
    rw [tree_list, array.injEq] at hitems
    subst hitems
    rw [map_singleton, mem_singleton] at hitem
    subst hitem
    exact addOperation_plain (by decide)
  have hagrees := (applyPatch_agrees_iff sampleNumberType .initial hd hp rfl hplain).1 (tree result)
  exact ⟨hresult, hagrees.mp ⟨result, hresult, rfl⟩⟩

/-- A pointer beyond the limit on its size. -/
def longPointer : String :=
  String.ofList (Pointer.text [String.ofList (List.replicate maxJsonInputBytes 'a')])

lemma utf8ByteSize_replicate (k : Nat) :
    (String.ofList (List.replicate k 'a')).utf8ByteSize = k := by
  induction k with
  | zero => rfl
  | succ k ih =>
    have hone : Char.utf8Size 'a' = 1 := by decide
    rw [replicate_succ, String.ofList_cons, String.utf8ByteSize_append,
      String.utf8ByteSize_singleton, ih, hone]
    omega

lemma escape_replicate (k : Nat) :
    Pointer.escape (List.replicate k 'a') = List.replicate k 'a' := by
  induction k with
  | zero => rfl
  | succ k ih =>
    rw [replicate_succ, Pointer.escape_cons, ih]
    rfl

lemma longPointer_toList : longPointer.toList = '/' :: List.replicate maxJsonInputBytes 'a' := by
  rw [longPointer, String.toList_ofList, Pointer.text, flatMap_singleton,
    String.toList_ofList, escape_replicate]

lemma longPointer_size : maxJsonInputBytes < longPointer.utf8ByteSize := by
  have hlist := longPointer_toList
  rw [← String.toList_ofList (l := '/' :: List.replicate maxJsonInputBytes 'a'),
    String.toList_inj] at hlist
  have hone : Char.utf8Size '/' = 1 := by decide
  rw [hlist, String.ofList_cons, String.utf8ByteSize_append, String.utf8ByteSize_singleton,
    utf8ByteSize_replicate, hone]
  omega

lemma addOperation_oversized (hpath : maxJsonInputBytes < path.utf8ByteSize)
    (document value : Value) :
    applyJsonPatchOperation sampleJsonRuntime document (addOperation path value) =
      .error "JSON Pointer exceeds the 16 MiB input limit" := by
  have hop : patchText sampleJsonRuntime ⟨0, 0⟩ [(.string "op", .string "add"),
      (.string "path", .string path), (.string "value", value)] "op" = .ok "add" :=
    patchText_eq_ok_iff.mpr rfl
  have htext : patchText sampleJsonRuntime ⟨0, 0⟩ [(.string "op", .string "add"),
      (.string "path", .string path), (.string "value", value)] "path" = .ok path :=
    patchText_eq_ok_iff.mpr rfl
  have hdecode : decodePointerText path = .error "JSON Pointer exceeds the 16 MiB input limit" :=
    if_pos hpath
  simp only [applyJsonPatchOperation, addOperation, hop, htext, hdecode, bind, Except.bind]

/-- The standard adds a member with a name of 16 MiB to `{}`; the code refuses its
pointer. -/
theorem long_pointer_is_refused :
    let document := Value.map ⟨0, 0⟩ []
    let patch := Value.list [addOperation longPointer .unit]
    muxJsonApplyPatch sampleNumberType .initial (some document) (some patch) =
        (some document, .error "JSON Pointer exceeds the 16 MiB input limit") ∧
      (∀ items, tree patch = .array items → ∀ item ∈ items, Plain item.members) ∧
      ∃ ops t, Patches (tree patch) ops ∧ applyAll (tree document) ops = some t := by
  intro document patch
  have hstep := addOperation_oversized longPointer_size document .unit
  have hpointer : Points (tree (addOperation longPointer .unit)).members "path"
      [String.ofList (List.replicate maxJsonInputBytes 'a')] :=
    ⟨longPointer, rfl, by rw [longPointer, String.toList_ofList]⟩
  refine ⟨?_, ?_, ?_⟩
  · have hrun : applyOperations sampleJsonRuntime document [addOperation longPointer .unit] =
        .error "JSON Pointer exceeds the 16 MiB input limit" := by
      rw [applyOperations, hstep]
    have hclone : document.clone sampleJsonRuntime = document := rfl
    have hrepresentable : ([addOperation longPointer .unit].any
        fun operation => !isRepresentable sampleNumberType .initial operation) = false := rfl
    simp only [muxJsonApplyPatch, patch, hrepresentable, hclone, hrun, Bool.false_eq_true, if_false]
  · intro items hitems item hitem
    rw [tree_list, array.injEq] at hitems
    subst hitems
    rw [map_singleton, mem_singleton] at hitem
    subst hitem
    apply addOperation_plain
    rw [longPointer_toList, mem_cons, mem_replicate]
    simp
  · refine ⟨[.add [String.ofList (List.replicate maxJsonInputBytes 'a')] .null], _, ?_, rfl⟩
    refine ⟨_, tree_list _, ?_⟩
    rw [map_singleton]
    exact .cons (.add rfl hpointer rfl) .nil

end MuxRuntime
