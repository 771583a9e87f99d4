import DocGraph.Proofs.GraphQL.Tokens

set_option autoImplicit false

namespace DocGraph.GraphQL

section

def behind (front : List Char) (read : List Char × List Char) : List Char × List Char := (front ++ read.1, read.2)

theorem block_char (c : Char) (tail : List Char) (escape : ∀ rest, c = '\\' → tail = '"' :: '"' :: '"' :: rest → False)
    (close : ∀ rest, c = '"' → tail = '"' :: '"' :: rest → False) :
    blockContent (c :: tail) = (blockContent tail).map (behind [c]) := by
  rw [blockContent.eq_4 c tail escape close]
  cases blockContent tail <;> rfl

def tripleQuotes : List Char → Bool
  | [] => false
  | '"' :: '"' :: '"' :: _ => true
  | _ :: rest => tripleQuotes rest

theorem triple_char (c : Char) (rest : List Char) (single : tripleQuotes (c :: rest) = false) : tripleQuotes rest = false := by
  unfold tripleQuotes at single
  split at single
  · rename_i none
    cases none
  · cases single
  · rename_i same
    cases same
    exact single

theorem triple_plain (text : List Char) (plain : '"' ∉ text) : tripleQuotes text = false := by
  induction text with
  | nil => rfl
  | cons c rest ih =>
      rw [List.mem_cons, not_or] at plain
      rw [tripleQuotes.eq_3 c rest (fun _ same _ => plain.1 same.symm)]
      exact ih plain.2

theorem unclosed_content (text : List Char) (single : tripleQuotes text = false) : blockContent text = none := by
  induction text with
  | nil => rfl
  | cons c rest ih =>
      have later := ih (triple_char c rest single)
      rw [block_char c rest, later]
      · rfl
      · rintro others rfl rfl
        have quotes := triple_char _ _ single
        cases quotes
      · rintro others rfl rfl
        cases single

/-- What a block string holds by the grammar: an escaped triple quote stands for the quotes. -/
def unescapedContent : List Char → Option (List Char × List Char)
  | [] => none
  | '\\' :: '"' :: '"' :: '"' :: rest => do
      let (content, after) ← unescapedContent rest
      return ('"' :: '"' :: '"' :: content, after)
  | '"' :: '"' :: '"' :: rest => some ([], rest)
  | char :: rest => do
      let (content, after) ← unescapedContent rest
      return (char :: content, after)

theorem unescaped_content (input content after : List Char) (read : blockContent input = some (content, after))
    (single : tripleQuotes content = false) : unescapedContent input = some (content, after) := by
  induction input using blockContent.induct generalizing content with
  | case1 => cases read
  | case2 rest ih =>
      rw [blockContent] at read
      obtain ⟨⟨inner, left⟩, _, same⟩ := Option.bind_eq_some_iff.mp read
      cases same
      have quotes := triple_char _ _ single
      cases quotes
  | case3 rest =>
      cases read
      rfl
  | case4 c rest escape close ih =>
      rw [blockContent.eq_4 c rest escape close] at read
      obtain ⟨⟨inner, left⟩, here, same⟩ := Option.bind_eq_some_iff.mp read
      cases same
      rw [unescapedContent.eq_4 c rest escape close, ih inner here (triple_char c inner single)]
      rfl

theorem open_content (text tail : List Char) (unclosed : blockContent text = none) :
    blockContent (text ++ '\n' :: tail) = (blockContent ('\n' :: tail)).map (behind text) := by
  induction text using blockContent.induct with
  | case1 =>
      rw [List.nil_append]
      cases blockContent ('\n' :: tail) <;> rfl
  | case2 rest ih =>
      have later : blockContent rest = none := by
        rw [blockContent] at unclosed
        cases read : blockContent rest with
        | none => rfl
        | some value => rw [read] at unclosed; cases unclosed
      simp only [List.cons_append]
      rw [blockContent, ih later]
      cases blockContent ('\n' :: tail) <;> rfl
  | case3 rest => rw [blockContent] at unclosed; cases unclosed
  | case4 c rest escape close ih =>
      rw [block_char c rest escape close, Option.map_eq_none_iff] at unclosed
      rw [List.cons_append, block_char c, ih unclosed, Option.map_map]
      · exact congrArg (Option.map · _) (funext (fun read => rfl))
      · intro more first same
        obtain ⟨others, longer⟩ := front_before '\n' rest tail ['"', '"', '"'] more (by decide) same
        exact escape others first longer
      · intro more first same
        obtain ⟨others, longer⟩ := front_before '\n' rest tail ['"', '"'] more (by decide) same
        exact close others first longer

end

def around (indent text : List Char) : List Char := '\n' :: indent ++ (text ++ '\n' :: indent)

def IsMargin (indent : List Char) : Prop := indent = [] ∨ indent = ['\t']

theorem around_content (indent text tail : List Char) (margin : IsMargin indent) (unclosed : blockContent text = none) :
    blockContent (around indent text ++ '"' :: '"' :: '"' :: tail) = some (around indent text, tail) := by
  have closed : blockContent ('\n' :: (indent ++ '"' :: '"' :: '"' :: tail)) = some ('\n' :: indent, tail) := by
    rcases margin with rfl | rfl <;> rfl
  have inner := open_content text (indent ++ '"' :: '"' :: '"' :: tail) unclosed
  rw [closed] at inner
  have blank (c : Char) (rest : List Char) (other : c ≠ '\\') (another : c ≠ '"') :
      blockContent (c :: rest) = (blockContent rest).map (behind [c]) :=
    block_char c rest (fun _ same => absurd same other) (fun _ same => absurd same another)
  rcases margin with rfl | rfl
  · simp only [around, List.nil_append, List.cons_append, List.append_assoc] at inner ⊢
    rw [blank '\n' _ (by decide) (by decide), inner]
    rfl
  · simp only [around, List.nil_append, List.cons_append, List.append_assoc] at inner ⊢
    rw [blank '\n' _ (by decide) (by decide), blank '\t' _ (by decide) (by decide), inner]
    rfl

theorem around_single (indent text : List Char) (margin : IsMargin indent) (single : tripleQuotes text = false) :
    tripleQuotes (around indent text) = false := by
  have ends : tripleQuotes (text ++ '\n' :: indent) = false := by
    induction text with
    | nil => rcases margin with rfl | rfl <;> rfl
    | cons c rest ih =>
        rw [List.cons_append, tripleQuotes.eq_3 c _ ?_]
        · exact ih (triple_char c rest single)
        · rintro others rfl same
          obtain ⟨more, longer⟩ := front_before '\n' rest indent ['"', '"'] others (by decide) same
          rw [longer] at single
          cases single
  rcases margin with rfl | rfl
  · exact ends
  · exact ends

theorem lines_end (c : Char) (rest : List Char) (ends : isLineEnd c = true)
    (single : ∀ others, c = '\r' → rest = '\n' :: others → False) : lines (c :: rest) = [] :: lines rest := by
  rw [lines.eq_3 c rest single, if_pos ends]

theorem lines_char (c : Char) (rest first : List Char) (others : List (List Char)) (shown : isLineEnd c ≠ true)
    (after : lines rest = first :: others) : lines (c :: rest) = (c :: first) :: others := by
  have single : ∀ others, c = '\r' → rest = '\n' :: others → False := by
    rintro _ rfl _
    exact shown rfl
  rw [lines.eq_3 c rest single, if_neg shown, after]

structure OwnLines (text first : List Char) (others : List (List Char)) : Prop where
  before : ∀ tail, lines (text ++ '\n' :: tail) = first :: (others ++ lines tail)
  whole : lines text = first :: others ∨ lines text = first :: (others ++ [[]])
  inLine : ∀ line ∈ first :: others, '\n' ∉ line

theorem own_lines_end (c : Char) (rest first : List Char) (others : List (List Char)) (ends : isLineEnd c = true)
    (single : ∀ others, c = '\r' → rest = '\n' :: others → False) (apart : ¬ (c = '\r' ∧ rest = []))
    (own : OwnLines rest first others) : OwnLines (c :: rest) [] (first :: others) where
  before tail := by
    rw [List.cons_append, lines_end c _ ends, own.before]
    · rfl
    · intro more carriage same
      cases rest with
      | nil => exact apart ⟨carriage, rfl⟩
      | cons next rest =>
          rw [List.cons_append, List.cons.injEq] at same
          exact single rest carriage (by rw [same.1])
  whole := by
    rw [lines_end c rest ends single]
    rcases own.whole with whole | whole <;> simp [whole]
  inLine := by simpa using own.inLine

theorem own_lines_char (c : Char) (rest first : List Char) (others : List (List Char)) (shown : isLineEnd c ≠ true)
    (own : OwnLines rest first others) : OwnLines (c :: rest) (c :: first) others where
  before tail := lines_char c _ first _ shown (own.before tail)
  whole := own.whole.imp (lines_char c rest first _ shown) (lines_char c rest first _ shown)
  inLine := by
    have plain : '\n' ≠ c := by
      rintro rfl
      exact shown rfl
    simpa [plain] using own.inLine

theorem own_lines (text : List Char) : ∃ first others, OwnLines text first others := by
  have feed (tail : List Char) : lines ('\n' :: tail) = [] :: lines tail :=
    lines_end '\n' tail rfl (fun _ same => absurd same (by decide))
  induction text using lines.induct with
  | case1 => exact ⟨[], [], feed, .inl rfl, by simp⟩
  | case2 rest ih =>
      obtain ⟨first, others, own⟩ := ih
      refine ⟨[], first :: others, fun tail => ?_, ?_, by simpa using own.inLine⟩
      · simp only [List.cons_append]
        rw [lines, own.before]
      · rw [lines]
        rcases own.whole with whole | whole <;> simp [whole]
  | case3 c rest single ends ih =>
      by_cases half : c = '\r' ∧ rest = []
      · obtain ⟨rfl, rfl⟩ := half
        exact ⟨[], [], fun tail => by rw [List.cons_append, List.nil_append, lines]; rfl, .inr rfl, by simp⟩
      · obtain ⟨first, others, own⟩ := ih
        exact ⟨[], first :: others, own_lines_end c rest first others ends single half own⟩
  | case4 c rest single shown _ ih =>
      obtain ⟨first, others, own⟩ := ih
      exact ⟨c :: first, others, own_lines_char c rest first others shown own⟩
  | case5 c rest single shown _ _ _ ih =>
      obtain ⟨first, others, own⟩ := ih
      exact ⟨c :: first, others, own_lines_char c rest first others shown own⟩

abbrev IsBlankLine (line : List Char) : Prop := line.all isIndent = true

theorem trim_before (before block : List (List Char)) (blank : ∀ line ∈ before, IsBlankLine line) :
    trimBlankLines (before ++ block) = trimBlankLines block := by
  rw [trimBlankLines, List.dropWhile_append_of_pos blank, trimBlankLines]

theorem trim_after (block after : List (List Char)) (blank : ∀ line ∈ after, IsBlankLine line) :
    trimBlankLines (block ++ after) = trimBlankLines block := by
  have none : after.dropWhile (fun line => line.all isIndent) = [] := by
    simpa using blank
  rw [trimBlankLines, trimBlankLines, List.dropWhile_append]
  cases started : block.dropWhile (fun line => line.all isIndent) with
  | nil => rw [List.isEmpty_nil, if_pos rfl, none]
  | cons first others =>
      have behind : ∀ line ∈ after.reverse, IsBlankLine line := fun line member => blank line (List.mem_reverse.mp member)
      rw [List.isEmpty_cons, if_neg Bool.false_ne_true, List.reverse_append, List.dropWhile_append_of_pos behind]

theorem trim_shown (first last : List Char) (middle : List (List Char)) (starts : ¬ IsBlankLine first)
    (ends : ¬ IsBlankLine last) : trimBlankLines (first :: (middle ++ [last])) = first :: (middle ++ [last]) := by
  have whole : (first :: (middle ++ [last])).reverse = last :: (first :: middle).reverse := by simp
  have front : (first :: (middle ++ [last])).dropWhile (fun line => line.all isIndent) = first :: (middle ++ [last]) :=
    List.dropWhile_cons_of_neg starts
  have back : (last :: (first :: middle).reverse).dropWhile (fun line => line.all isIndent) = last :: (first :: middle).reverse :=
    List.dropWhile_cons_of_neg ends
  rw [trimBlankLines, front, whole, back, ← whole, List.reverse_reverse]

def sharedIndent (lines : List (List Char)) : Nat := ((lines.filterMap indent?).min?).getD 0

def dedented (lines : List (List Char)) : List Char :=
  ['\n'].intercalate (trimBlankLines (lines.map (unindent (sharedIndent lines))))

theorem indent_blank (line : List Char) (blank : IsBlankLine line) : indent? line = none := if_pos blank

theorem indent_shown (line : List Char) (shown : ¬ IsBlankLine line) :
    indent? line = some (line.takeWhile isIndent).length := if_neg shown

theorem mem_unindent (width : Nat) (line : List Char) (c : Char) (member : c ∈ unindent width line) : c ∈ line := by
  unfold unindent at member
  split at member
  · exact List.mem_of_mem_drop member
  · exact member

theorem blank_unindent (width : Nat) (line : List Char) (blank : IsBlankLine line) : IsBlankLine (unindent width line) :=
  List.all_eq_true.mpr (fun c member => List.all_eq_true.mp blank c (mem_unindent width line c member))

theorem block_value (content : List Char) (others : List (List Char)) (split : lines content = [] :: others) :
    blockValue content = dedented others := by
  rw [blockValue, split]
  exact congrArg (['\n'].intercalate ·) (trim_before [[]] _ (by simp))

theorem dedented_end (block : List (List Char)) (last : List Char) (blank : IsBlankLine last) :
    dedented (block ++ [last]) = dedented block := by
  have same : sharedIndent (block ++ [last]) = sharedIndent block := by
    simp only [sharedIndent, List.filterMap_append, List.filterMap_cons, indent_blank last blank, List.filterMap_nil,
      List.append_nil]
  have ends := blank_unindent (sharedIndent block) last blank
  rw [dedented, same, List.map_append, trim_after _ _ (by simpa using ends), dedented]

theorem value_around (indent text first : List Char) (others : List (List Char)) (margin : IsMargin indent)
    (own : OwnLines text first others) : blockValue (around indent text) = dedented ((indent ++ first) :: others) := by
  have blank : IsBlankLine indent := by rcases margin with rfl | rfl <;> rfl
  have feed (tail : List Char) : lines ('\n' :: tail) = [] :: lines tail :=
    lines_end '\n' tail rfl (fun _ same => absurd same (by decide))
  rw [block_value _ ((indent ++ first) :: others ++ [indent]), dedented_end _ indent blank]
  rcases margin with rfl | rfl
  · simp only [around, List.nil_append, List.cons_append]
    rw [feed, own.before]
    rfl
  · simp only [around, List.nil_append, List.cons_append]
    rw [feed, lines_char '\t' _ first _ (by decide) (own.before ['\t'])]
    rfl

theorem blank_tab (line : List Char) : IsBlankLine ('\t' :: line) ↔ IsBlankLine line := by
  simp [isIndent]

theorem indent_tab (line : List Char) : indent? ('\t' :: line) = (indent? line).map (· + 1) := by
  by_cases blank : IsBlankLine line
  · rw [indent_blank _ ((blank_tab line).mpr blank), indent_blank line blank]
    rfl
  · rw [indent_shown _ (fun tab => blank ((blank_tab line).mp tab)), indent_shown line blank,
      List.takeWhile_cons_of_pos (by rfl)]
    rfl

theorem unindent_tab (width : Nat) (line : List Char) (within : width ≤ line.length) :
    unindent (width + 1) ('\t' :: line) = unindent width line := by
  rw [unindent, unindent, if_pos within, if_pos (by simpa using within), List.drop_succ_cons]

theorem unindent_shown (width indent : Nat) (line : List Char) (given : indent? line = some indent) (within : width ≤ indent) :
    ¬ IsBlankLine (unindent width line) ∧ (unindent width line).length + width = line.length := by
  by_cases blank : IsBlankLine line
  · rw [indent_blank line blank] at given
    cases given
  · rw [indent_shown line blank] at given
    cases Option.some.inj given
    have short := (List.takeWhile_prefix isIndent (l := line)).length_le
    rw [unindent, if_pos (Nat.le_trans within short)]
    constructor
    · intro dropped
      apply blank
      have front : line.take width = (line.takeWhile isIndent).take width := by
        have joined : (line.takeWhile isIndent ++ line.dropWhile isIndent).take width = (line.takeWhile isIndent).take width :=
          List.take_append_of_le_length within
        rwa [List.takeWhile_append_dropWhile] at joined
      have starts : ∀ c ∈ line.take width, isIndent c = true := by
        intro c member
        rw [front] at member
        exact List.mem_takeWhile_imp (List.mem_of_mem_take member)
      refine List.all_eq_true.mpr (fun c member => ?_)
      rw [← List.take_append_drop width line] at member
      exact (List.mem_append.mp member).elim (starts c) (List.all_eq_true.mp dropped c)
    · rw [List.length_drop]
      omega

theorem shared_indent_cons (first : List Char) (others : List (List Char)) (indent : Nat) (given : indent? first = some indent) :
    sharedIndent (first :: others) = ((others.filterMap indent?).min?).elim indent (min indent) := by
  rw [sharedIndent, List.filterMap_cons_some given, List.min?_cons]
  rfl

theorem shared_indent_blank (first : List Char) (others : List (List Char)) (blank : IsBlankLine first) :
    sharedIndent (first :: others) = sharedIndent others := by
  rw [sharedIndent, List.filterMap_cons_none (indent_blank first blank), sharedIndent]

theorem dedented_start (first : List Char) (others : List (List Char)) (blank : IsBlankLine first) :
    dedented (first :: others) = dedented others := by
  have starts := blank_unindent (sharedIndent others) first blank
  rw [dedented, shared_indent_blank first others blank, dedented]
  exact congrArg (['\n'].intercalate ·) (trim_before [_] _ (by simpa using starts))

theorem dedented_one (first : List Char) (others : List (List Char)) (blank : ∀ line ∈ others, IsBlankLine line) (indent : Nat)
    (given : indent? first = some indent) :
    dedented (first :: others) = ['\n'].intercalate (trimBlankLines [unindent indent first]) := by
  have none : others.filterMap indent? = [] := by
    rw [List.filterMap_eq_nil_iff]
    exact fun line member => indent_blank line (blank line member)
  have ends : ∀ line ∈ others.map (unindent indent), IsBlankLine line := by
    intro line member
    obtain ⟨held, listed, rfl⟩ := List.mem_map.mp member
    exact blank_unindent indent held (blank held listed)
  have width : sharedIndent (first :: others) = indent := by rw [shared_indent_cons first others indent given, none]; rfl
  rw [dedented, width]
  exact congrArg (['\n'].intercalate ·) (trim_after [_] _ ends)

theorem last_shown (block : List (List Char)) (shown : ∃ line ∈ block, ¬ IsBlankLine line) :
    ∃ middle last after, block = middle ++ last :: after ∧ ¬ IsBlankLine last ∧ ∀ line ∈ after, IsBlankLine line := by
  induction block with
  | nil =>
      obtain ⟨_, none, _⟩ := shown
      cases none
  | cons first others ih =>
      by_cases later : ∃ line ∈ others, ¬ IsBlankLine line
      · obtain ⟨middle, last, after, rfl, ends, blank⟩ := ih later
        exact ⟨first :: middle, last, after, rfl, ends, blank⟩
      · have blank : ∀ line ∈ others, IsBlankLine line := by simpa using later
        obtain ⟨line, member, shows⟩ := shown
        rcases List.mem_cons.mp member with rfl | behind
        · exact ⟨[], line, others, rfl, shows, blank⟩
        · exact absurd (blank line behind) shows

theorem intercalate_cons (separator first : List Char) (others : List (List Char)) (filled : others ≠ []) :
    separator.intercalate (first :: others) = first ++ separator ++ separator.intercalate others := by
  cases others with
  | nil => exact absurd rfl filled
  | cons next rest => exact List.intercalate_cons_cons

theorem dedented_between (first last : List Char) (middle after : List (List Char)) (width : Nat)
    (shared : sharedIndent (first :: (middle ++ last :: after)) = width) (starts : ¬ IsBlankLine (unindent width first))
    (ends : ¬ IsBlankLine (unindent width last)) (blank : ∀ line ∈ after, IsBlankLine line) :
    dedented (first :: (middle ++ last :: after)) = unindent width first ++ ['\n'] ++
      ['\n'].intercalate (middle.map (unindent width) ++ [unindent width last]) := by
  have behind : ∀ line ∈ after.map (unindent width), IsBlankLine line := by
    intro line member
    obtain ⟨held, listed, rfl⟩ := List.mem_map.mp member
    exact blank_unindent width held (blank held listed)
  have split : (first :: (middle ++ last :: after)).map (unindent width) =
      unindent width first :: (middle.map (unindent width) ++ [unindent width last]) ++ after.map (unindent width) := by
    simp
  rw [dedented, shared, split, trim_after _ _ behind, trim_shown _ _ _ starts ends, intercalate_cons _ _ _ (by simp)]

theorem last_line (block : List (List Char)) (last : List Char) (inLine : '\n' ∉ last) :
    (['\n'].intercalate (block ++ [last])).reverse.takeWhile (fun c => c != '\n') = last.reverse := by
  induction block with
  | nil =>
      have plain : ∀ c ∈ last.reverse, (c != '\n') = true := by
        intro c member
        rw [bne_iff_ne]
        rintro rfl
        exact inLine (List.mem_reverse.mp member)
      rw [List.nil_append, List.intercalate_singleton]
      exact List.takeWhile_eq_self_iff.mpr plain
  | cons first others ih =>
      have split : (['\n'].intercalate (first :: others ++ [last])).reverse =
          (['\n'].intercalate (others ++ [last])).reverse ++ '\n' :: first.reverse := by
        rw [List.cons_append, intercalate_cons _ _ _ (by simp)]
        simp
      rw [split, List.takeWhile_append, ih]
      split
      · rename_i whole
        have all : (['\n'].intercalate (others ++ [last])).reverse = last.reverse :=
          ((List.takeWhile_prefix _).eq_of_length (ih ▸ whole)).symm.trans ih
        rw [all, List.takeWhile_cons_of_neg (by simp), List.append_nil]
      · rfl

theorem dedented_tab (first : List Char) (others : List (List Char)) (inLine : ∀ line ∈ others, '\n' ∉ line) :
    dedented (('\t' :: first) :: others) = dedented (first :: others) ↔
      IsBlankLine first ∨ ∀ line ∈ others, IsBlankLine line := by
  by_cases blank : IsBlankLine first
  · rw [dedented_start first others blank, dedented_start _ others ((blank_tab first).mpr blank)]
    exact ⟨fun _ => .inl blank, fun _ => rfl⟩
  have given := indent_shown first blank
  have tabbed : indent? ('\t' :: first) = some ((first.takeWhile isIndent).length + 1) := by rw [indent_tab, given]; rfl
  have short : (first.takeWhile isIndent).length ≤ first.length := (List.takeWhile_prefix isIndent).length_le
  generalize (first.takeWhile isIndent).length = indent at given tabbed short
  by_cases alone : ∀ line ∈ others, IsBlankLine line
  · rw [dedented_one first others alone indent given, dedented_one _ others alone (indent + 1) tabbed,
      unindent_tab indent first short]
    exact ⟨fun _ => .inr alone, fun _ => rfl⟩
  · refine ⟨fun same => ?_, fun either => either.elim (absurd · blank) (absurd · alone)⟩
    exfalso
    obtain ⟨middle, last, after, rfl, ends, behind⟩ := last_shown others (by simpa using alone)
    have lasts := indent_shown last ends
    generalize (last.takeWhile isIndent).length = deep at lasts
    -- The indentation that the other lines share, which is not more than that of the last.
    have counted : deep ∈ (middle ++ last :: after).filterMap indent? := List.mem_filterMap.mpr ⟨last, by simp, lasts⟩
    obtain ⟨least, found⟩ := Option.isSome_iff_exists.mp (List.isSome_min?_of_mem counted)
    have bound : least ≤ deep := (List.min?_eq_some_iff.mp found).2 deep counted
    have shared : sharedIndent (first :: (middle ++ last :: after)) = min indent least := by
      rw [shared_indent_cons first _ indent given, found]
      rfl
    have tabShared : sharedIndent (('\t' :: first) :: (middle ++ last :: after)) = min (indent + 1) least := by
      rw [shared_indent_cons _ _ (indent + 1) tabbed, found]
      rfl
    obtain ⟨starts, long⟩ := unindent_shown (min indent least) indent first given (Nat.min_le_left ..)
    obtain ⟨tabStarts, tabLong⟩ := unindent_shown (min (indent + 1) least) (indent + 1) _ tabbed (Nat.min_le_left ..)
    obtain ⟨stops, tail⟩ := unindent_shown (min indent least) deep last lasts (by omega)
    obtain ⟨tabStops, tabTail⟩ := unindent_shown (min (indent + 1) least) deep last lasts (by omega)
    rw [dedented_between first last middle after _ shared starts stops behind,
      dedented_between _ last middle after _ tabShared tabStarts tabStops behind] at same
    have last_in_line (width : Nat) : '\n' ∉ unindent width last := fun member =>
      inLine last (by simp) (mem_unindent width last '\n' member)
    by_cases within : least ≤ indent
    · -- The same is taken from all lines, so the tab is left.
      have equal : min (indent + 1) least = min indent least := by omega
      rw [equal] at same tabLong
      have heads := List.append_cancel_right (List.append_cancel_right same)
      rw [heads, List.length_cons] at tabLong
      omega
    · -- One more column is taken from the last line.
      have narrow : min indent least = indent := by omega
      have wide : min (indent + 1) least = indent + 1 := by omega
      rw [narrow, wide, unindent_tab indent first short] at same
      have tails := congrArg (fun text => text.reverse.takeWhile (fun c => c != '\n')) (List.append_cancel_left same)
      simp only [last_line _ _ (last_in_line _)] at tails
      have lengths := congrArg List.length (List.reverse_inj.mp tails)
      rw [narrow] at tail
      rw [wide] at tabTail
      omega

theorem tab_text : "\t".toList = ['\t'] := by decide

theorem feed_text : "\n".toList = ['\n'] := by decide

def valueWithin (indent text : String) : String := String.ofList (blockValue (around indent.toList text.toList))

/-- A text as a block has it: without the indentation that its lines share and without blank lines around them. -/
def normal (text : String) : String := valueWithin "" text

/-- The first line of a text is blank, or all others are. -/
def level (text : String) : Bool :=
  match lines text.toList with
  | [] => true
  | first :: others => first.all isIndent || others.all (fun line => line.all isIndent)

theorem within_tab (text : String) : valueWithin "\t" text = normal text ↔ level text = true := by
  obtain ⟨first, others, own⟩ := own_lines text.toList
  have inLine : ∀ line ∈ others, '\n' ∉ line := fun line member => own.inLine line (List.mem_cons_of_mem first member)
  have flat : level text = true ↔ IsBlankLine first ∨ ∀ line ∈ others, IsBlankLine line := by
    unfold level
    rcases own.whole with whole | whole <;> simp [whole]
  rw [flat, ← dedented_tab first others inLine, normal, valueWithin, valueWithin, String.ofList_inj, tab_text,
    String.toList_empty, value_around ['\t'] text.toList first others (.inr rfl) own,
    value_around [] text.toList first others (.inl rfl) own]
  rfl

end DocGraph.GraphQL
