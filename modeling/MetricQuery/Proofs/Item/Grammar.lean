import MetricQuery.Item.Reference
import MetricQuery.Proofs.Item.Tokens

/-! # The grammar of calls

What a chain of calls looks like: calls with points between them, arguments in parentheses with
commas between them, the positional ones first, and perhaps one comma behind the last one. A text is
read as a chain of calls exactly if it renders the tokens of the chain, whatever blanks and quotes
it is written with (`CallChain.reads_iff_renders`).
-/

namespace MetricQuery

/-- Whether tokens are pieces with commas between them. One comma may stand behind the last
piece. -/
inductive Token.Listed : List (List Token) → List Token → Prop where
  | nil : Listed [] []
  | last (piece : List Token) : Listed [piece] piece
  | cons (piece : List Token) {pieces : List (List Token)} {tokens : List Token}
      (rest : Listed pieces tokens) : Listed (piece :: pieces) (piece ++ .comma :: tokens)

open Token (IsDivided Listed)

/-- Whether tokens show an argument. -/
inductive Argument.Shows : Argument → List Token → Prop where
  | text (inside : String) : Shows (.text inside) [.text inside]
  | list {texts : List String} {tokens : List Token}
      (listed : Listed (texts.map fun inside => [.text inside]) tokens) :
      Shows (.list texts) (.leftBracket :: (tokens ++ [.rightBracket]))
  | true : Shows (.flag true) [.word "True"]
  | false : Shows (.flag false) [.word "False"]

namespace Call

/-- Whether tokens show an argument behind its name. -/
inductive ShowsKeyword : String × Argument → List Token → Prop where
  | mk (name : String) {argument : Argument} {tokens : List Token}
      (shows : argument.Shows tokens) :
      ShowsKeyword (name, argument) (.word name :: .equals :: tokens)

/-- Whether tokens show the arguments of a call, the positional ones in front of the others. -/
def ShowsArguments (positional : List Argument) (keyword : List (String × Argument))
    (tokens : List Token) : Prop :=
  ∃ pieces named, List.Forall₂ Argument.Shows positional pieces ∧
    List.Forall₂ ShowsKeyword keyword named ∧ Listed (pieces ++ named) tokens

end Call

/-! ## Words do not run together -/

/-- A mark in front divides what follows from what is before. -/
theorem Token.isDivided_cons_mark {others : List Token} {mark : Token}
    (isMark : mark.isWord = false) : IsDivided (mark :: others) ↔ IsDivided others := by
  rw [IsDivided, List.isChain_cons]
  exact ⟨And.right, fun divided => ⟨fun _ _ isWord => (nomatch isMark.symm.trans isWord), divided⟩⟩

/-- A mark between two runs of tokens divides them. -/
theorem Token.isDivided_append_mark {tokens others : List Token} {mark : Token}
    (isMark : mark.isWord = false) :
    IsDivided (tokens ++ mark :: others) ↔ IsDivided tokens ∧ IsDivided others := by
  rw [IsDivided, List.isChain_append]
  constructor
  · rintro ⟨front, behind, _⟩
    exact ⟨front, (isDivided_cons_mark isMark).mp behind⟩
  · rintro ⟨front, behind⟩
    refine ⟨front, (isDivided_cons_mark isMark).mpr behind, ?_⟩
    rintro last _ first ⟨⟩ _
    exact isMark

/-- Commas divide the pieces of a list. -/
theorem Token.Listed.isDivided {pieces : List (List Token)} {tokens : List Token}
    (listed : Listed pieces tokens) (each : ∀ piece ∈ pieces, IsDivided piece) :
    IsDivided tokens := by
  induction listed with
  | nil => exact .nil
  | last piece => exact each piece List.mem_cons_self
  | cons piece _ ih =>
      exact (isDivided_append_mark rfl).mpr ⟨each piece List.mem_cons_self,
        ih fun other among => each other (.tail _ among)⟩

/-- The tokens of an argument are divided. -/
theorem Argument.Shows.isDivided {argument : Argument} {tokens : List Token}
    (shows : argument.Shows tokens) : IsDivided tokens := by
  cases shows with
  | text inside => exact .singleton _
  | true => exact .singleton _
  | false => exact .singleton _
  | @list texts inside listed =>
      have divided : IsDivided inside := by
        refine listed.isDivided fun piece among => ?_
        obtain ⟨text, _, rfl⟩ := List.mem_map.mp among
        exact .singleton _
      exact (Token.isDivided_cons_mark rfl).mpr
        ((Token.isDivided_append_mark rfl).mpr ⟨divided, .nil⟩)

/-- The tokens of a keyword argument are divided. -/
theorem Call.ShowsKeyword.isDivided {keyword : String × Argument} {tokens : List Token}
    (shows : ShowsKeyword keyword tokens) : IsDivided tokens := by
  cases shows with
  | mk name shows =>
      exact .cons_cons (fun _ => rfl) ((Token.isDivided_cons_mark rfl).mpr shows.isDivided)

/-! ## Arguments that are read -/

namespace Call

/-- The texts of a list are read from what shows them, up to the closing bracket. -/
theorem readList_eq_ok_iff {tokens rest : List Token} {texts : List String} :
    readList tokens = .ok (texts, rest) ↔
      ∃ inside, Listed (texts.map fun text => [.text text]) inside ∧
        tokens = inside ++ .rightBracket :: rest := by
  constructor
  · intro ok
    fun_induction readList tokens generalizing texts with
    | case1 rest =>
        obtain ⟨⟩ := ok
        exact ⟨[], .nil, rfl⟩
    | case2 text tail ih =>
        obtain ⟨⟨later, rest⟩, read, ⟨⟩⟩ := map_eq_ok.mp ok
        obtain ⟨inside, listed, rfl⟩ := ih read
        exact ⟨_, .cons [.text text] listed, rfl⟩
    | case3 text rest =>
        obtain ⟨⟩ := ok
        exact ⟨[.text text], .last _, rfl⟩
    | case4 => cases ok
    | case5 => cases ok
  · rintro ⟨inside, listed, rfl⟩
    generalize same : texts.map (fun text => [Token.text text]) = pieces at listed
    induction listed generalizing texts with
    | nil =>
        obtain rfl := List.map_eq_nil_iff.mp same
        rfl
    | last piece =>
        obtain ⟨text, rfl, rfl⟩ := List.map_eq_singleton_iff.mp same
        rfl
    | cons piece _ ih =>
        obtain ⟨text, later, rfl, rfl, others⟩ := List.map_eq_cons_iff.mp same
        exact congrArg (Except.map _) (ih others)

/-- An argument is read from what shows it. -/
theorem readArgument_eq_ok_iff {tokens rest : List Token} {argument : Argument} :
    readArgument tokens = .ok (argument, rest) ↔
      ∃ shown, argument.Shows shown ∧ tokens = shown ++ rest := by
  constructor
  · intro ok
    unfold readArgument at ok
    split at ok
    · obtain ⟨⟩ := ok
      exact ⟨_, .text _, rfl⟩
    · obtain ⟨⟩ := ok
      exact ⟨_, .true, rfl⟩
    · obtain ⟨⟩ := ok
      exact ⟨_, .false, rfl⟩
    · obtain ⟨⟨texts, rest⟩, read, ⟨⟩⟩ := map_eq_ok.mp ok
      obtain ⟨inside, listed, rfl⟩ := readList_eq_ok_iff.mp read
      exact ⟨_, .list listed, by simp⟩
    · cases ok
  · rintro ⟨shown, shows, rfl⟩
    cases shows with
    | text inside => rfl
    | true => rfl
    | false => rfl
    | list listed =>
        rw [List.cons_append, List.append_assoc, readArgument]
        exact congrArg (Except.map _) (readList_eq_ok_iff.mpr ⟨_, listed, rfl⟩)

/-- What one argument adds to a call: a positional one only in front of all others. -/
inductive Takes (call : Call) : List Token → Call → Prop where
  | positional {argument : Argument} {tokens : List Token} (bare : call.keyword = [])
      (shows : argument.Shows tokens) :
      Takes call tokens { call with positional := call.positional ++ [argument] }
  | keyword {keyword : String × Argument} {tokens : List Token}
      (shows : ShowsKeyword keyword tokens) :
      Takes call tokens { call with keyword := call.keyword ++ [keyword] }

/-- What the reader adds to a call was shown by the tokens it consumed. -/
theorem takes_of_readInto {call done : Call} {tokens rest : List Token}
    (ok : readInto call tokens = .ok (done, rest)) :
    ∃ shown, call.Takes shown done ∧ tokens = shown ++ rest := by
  unfold readInto at ok
  split at ok
  · obtain ⟨⟨argument, rest⟩, read, ⟨⟩⟩ := map_eq_ok.mp ok
    obtain ⟨shown, shows, rfl⟩ := readArgument_eq_ok_iff.mp read
    exact ⟨_, .keyword (.mk _ shows), rfl⟩
  · split at ok
    · rename_i bare
      obtain ⟨⟨argument, rest⟩, read, ⟨⟩⟩ := map_eq_ok.mp ok
      obtain ⟨shown, shows, rfl⟩ := readArgument_eq_ok_iff.mp read
      exact ⟨_, .positional (List.isEmpty_iff.mp bare) shows, rfl⟩
    · cases ok

/-- A truth value is no name as long as no equals sign follows. -/
theorem readInto_of_takes {call done : Call} {shown rest : List Token}
    (takes : call.Takes shown done) (ends : rest.head? ≠ some .equals) :
    readInto call (shown ++ rest) = .ok (done, rest) := by
  cases takes with
  | keyword shows =>
      cases shows with
      | mk name shows =>
          rw [List.cons_append, List.cons_append, readInto,
            readArgument_eq_ok_iff.mpr ⟨_, shows, rfl⟩]
          rfl
  | positional bare shows =>
      rw [readInto, bare, readArgument_eq_ok_iff.mpr ⟨_, shows, rfl⟩]
      · rfl
      · intro name later same
        cases shows with
        | text inside => cases same
        | list listed => cases same
        | true => exact ends (congrArg (·.tail.head?) same)
        | false => exact ends (congrArg (·.tail.head?) same)

/-- An argument is read up to the comma or the parenthesis behind it. -/
theorem readArguments_of_readInto {call done : Call} {tokens after : List Token} {mark : Token}
    (argued : tokens.head? ≠ some .rightParen)
    (read : readInto call tokens = .ok (done, mark :: after)) :
    (mark = .comma → readArguments call tokens = readArguments done after) ∧
      (mark = .rightParen → readArguments call tokens = .ok (done, after)) := by
  obtain ⟨result, found⟩ : ∃ result, readArguments call tokens = result := ⟨_, rfl⟩
  rw [found]
  rw [readArguments] at found
  · split at found
    · rename_i failed
      cases failed.symm.trans read
    · rename_i same
      obtain ⟨⟩ := same.symm.trans read
      exact ⟨fun _ => found.symm, by rintro ⟨⟩⟩
    · rename_i same
      obtain ⟨⟩ := same.symm.trans read
      exact ⟨by rintro ⟨⟩, fun _ => found.symm⟩
    · rename_i noComma noParen same
      obtain ⟨⟩ := same.symm.trans read
      exact ⟨fun isComma => (noComma after (by rw [isComma])).elim,
        fun isParen => (noParen after (by rw [isParen])).elim⟩
  · rintro rest rfl
    exact argued rfl

/-- An argument does not begin with the parenthesis that closes the call. -/
theorem Takes.head {call done : Call} {tokens : List Token} (takes : call.Takes tokens done)
    (rest : List Token) : (tokens ++ rest).head? ≠ some .rightParen := by
  cases takes with
  | keyword shows =>
      cases shows with
      | mk name shows => exact nofun
  | positional bare shows => cases shows <;> exact nofun

/-- Whether pieces show the arguments that one call has beyond another. Positional ones are added
only to a call that has no others. -/
def Gathers (call : Call) (pieces : List (List Token)) (done : Call) : Prop :=
  ∃ positional keyword shown named, List.Forall₂ Argument.Shows positional shown ∧
    List.Forall₂ ShowsKeyword keyword named ∧ (call.keyword = [] ∨ positional = []) ∧
    shown ++ named = pieces ∧
    ⟨call.name, call.positional ++ positional, call.keyword ++ keyword⟩ = done

/-- Without pieces a call gathers nothing. -/
theorem gathers_nil {call done : Call} : call.Gathers [] done ↔ call = done := by
  constructor
  · rintro ⟨positional, keyword, shown, named, shows, showsNamed, -, same, rfl⟩
    obtain ⟨rfl, rfl⟩ := List.append_eq_nil_iff.mp same
    cases shows
    cases showsNamed
    rw [List.append_nil, List.append_nil]
  · rintro rfl
    refine ⟨[], [], [], [], .nil, .nil, .inr rfl, rfl, ?_⟩
    rw [List.append_nil, List.append_nil]

/-- Arguments are gathered one after the other. -/
theorem gathers_cons {call done : Call} {piece : List Token} {pieces : List (List Token)} :
    call.Gathers (piece :: pieces) done ↔
      ∃ next, call.Takes piece next ∧ next.Gathers pieces done := by
  constructor
  · rintro ⟨positional, keyword, shown, named, shows, showsNamed, ordered, same, rfl⟩
    cases shows with
    | @cons argument first positional shown head rest =>
        obtain ⟨rfl, rfl⟩ := List.cons.inj same
        have bare : call.keyword = [] := ordered.resolve_right nofun
        refine ⟨_, .positional bare head, positional, keyword, shown, named, rest, showsNamed,
          .inl bare, rfl, ?_⟩
        rw [List.append_assoc]
        rfl
    | nil =>
        cases showsNamed with
        | nil => cases same
        | @cons argument first keyword named head rest =>
            obtain ⟨rfl, rfl⟩ := List.cons.inj same
            refine ⟨_, .keyword head, [], keyword, [], named, .nil, rest, .inr rfl, rfl, ?_⟩
            rw [List.append_assoc]
            rfl
  · rintro ⟨next, takes, positional, keyword, shown, named, shows, showsNamed, ordered, rfl, rfl⟩
    cases takes with
    | @positional argument tokens bare head =>
        refine ⟨argument :: positional, keyword, piece :: shown, named, .cons head shows,
          showsNamed, .inl bare, rfl, ?_⟩
        rw [List.append_assoc]
        rfl
    | @keyword argument tokens head =>
        obtain rfl := ordered.resolve_left (List.concat_ne_nil _ _)
        cases shows
        refine ⟨[], argument :: keyword, [], piece :: named, .nil, .cons head showsNamed,
          .inr rfl, rfl, ?_⟩
        rw [List.append_assoc]
        rfl

/-- The arguments of a call are read from what shows them, up to the closing parenthesis. -/
theorem readArguments_eq_ok_iff {call done : Call} {tokens rest : List Token} :
    readArguments call tokens = .ok (done, rest) ↔
      ∃ pieces shown, call.Gathers pieces done ∧ Listed pieces shown ∧
        tokens = shown ++ .rightParen :: rest := by
  constructor
  · intro ok
    fun_induction readArguments call tokens with
    | case1 call rest =>
        obtain ⟨⟩ := ok
        exact ⟨[], [], gathers_nil.mpr rfl, .nil, rfl⟩
    | case2 => cases ok
    | case3 call tokens closed next after read shorter ih =>
        obtain ⟨pieces, shown, gathers, listed, rfl⟩ := ih ok
        obtain ⟨piece, takes, rfl⟩ := takes_of_readInto read
        refine ⟨piece :: pieces, _, gathers_cons.mpr ⟨next, takes, gathers⟩, .cons piece listed, ?_⟩
        rw [List.append_assoc, List.cons_append]
    | case4 call tokens closed next after read =>
        obtain ⟨⟩ := ok
        obtain ⟨piece, takes, rfl⟩ := takes_of_readInto read
        exact ⟨[piece], piece, gathers_cons.mpr ⟨_, takes, gathers_nil.mpr rfl⟩, .last piece, rfl⟩
    | case5 => cases ok
  · rintro ⟨pieces, shown, gathers, listed, rfl⟩
    induction listed generalizing call with
    | nil =>
        obtain rfl := gathers_nil.mp gathers
        rw [List.nil_append, readArguments]
    | last piece =>
        obtain ⟨next, takes, gathers⟩ := gathers_cons.mp gathers
        obtain rfl := gathers_nil.mp gathers
        have read : readInto call (piece ++ .rightParen :: rest) = .ok (next, .rightParen :: rest) :=
          readInto_of_takes takes (by rintro ⟨⟩)
        exact (readArguments_of_readInto (takes.head _) read).2 rfl
    | @cons piece pieces tokens _ ih =>
        obtain ⟨next, takes, gathers⟩ := gathers_cons.mp gathers
        have read : readInto call (piece ++ .comma :: (tokens ++ .rightParen :: rest)) =
            .ok (next, .comma :: (tokens ++ .rightParen :: rest)) :=
          readInto_of_takes takes (by rintro ⟨⟩)
        rw [List.append_assoc, List.cons_append,
          (readArguments_of_readInto (takes.head _) read).1 rfl, ih gathers]

/-! ## Calls that are read -/

/-- Whether tokens show a call. -/
inductive Shows : Call → List Token → Prop where
  | mk (name : String) {positional : List Argument} {keyword : List (String × Argument)}
      {tokens : List Token} (shows : ShowsArguments positional keyword tokens) :
      Shows ⟨name, positional, keyword⟩ (.word name :: .leftParen :: (tokens ++ [.rightParen]))

/-- The tokens of a call are divided. -/
theorem Shows.isDivided {call : Call} {tokens : List Token} (shows : call.Shows tokens) :
    IsDivided tokens := by
  cases shows with
  | mk name shows =>
      obtain ⟨pieces, named, positional, keyword, listed⟩ := shows
      have divided := listed.isDivided (List.forall_mem_append.mpr
        ⟨fun piece among => ?_, fun piece among => ?_⟩)
      · exact .cons_cons (fun _ => rfl) ((Token.isDivided_cons_mark rfl).mpr
          ((Token.isDivided_append_mark rfl).mpr ⟨divided, .nil⟩))
      · obtain ⟨argument, _, shows⟩ := exists_left_of_forall₂ positional among
        exact shows.isDivided
      · obtain ⟨argument, _, shows⟩ := exists_left_of_forall₂ keyword among
        exact shows.isDivided

/-- A call is read from what shows it. -/
theorem readCall_eq_ok_iff {call : Call} {tokens rest : List Token} :
    readCall tokens = .ok (call, rest) ↔ ∃ shown, call.Shows shown ∧ tokens = shown ++ rest := by
  constructor
  · intro ok
    unfold readCall at ok
    split at ok
    · obtain ⟨pieces, inside, ⟨positional, keyword, shown, named, shows, showsNamed, -, rfl, rfl⟩,
        listed, rfl⟩ := readArguments_eq_ok_iff.mp ok
      exact ⟨_, .mk _ ⟨shown, named, shows, showsNamed, listed⟩, by simp⟩
    · cases ok
    · cases ok
  · rintro ⟨shown, shows, rfl⟩
    cases shows with
    | mk name shows =>
        obtain ⟨shown, named, shows, showsNamed, listed⟩ := shows
        rw [List.cons_append, List.cons_append, List.append_assoc, readCall]
        exact readArguments_eq_ok_iff.mpr ⟨_, _, ⟨_, _, shown, named, shows, showsNamed, .inl rfl,
          rfl, rfl⟩, listed, rfl⟩

end Call

/-! ## Chains that are read -/

/-- Whether tokens show a chain of calls, with points between them. -/
inductive CallChain.Shows : CallChain → List Token → Prop where
  | mk {head : Call} {tail : List Call} {tokens : List Token} {pieces : List (List Token)}
      (first : head.Shows tokens) (rest : List.Forall₂ Call.Shows tail pieces) :
      Shows ⟨head, tail⟩ (tokens ++ pieces.flatMap (.dot :: ·))

/-- The tokens of a chain of calls are divided. -/
theorem CallChain.Shows.isDivided {chain : CallChain} {tokens : List Token}
    (shows : chain.Shows tokens) : IsDivided tokens := by
  cases shows with
  | @mk head tail tokens pieces first rest =>
      have divided := first.isDivided
      clear first
      induction rest generalizing tokens with
      | nil => rwa [List.flatMap_nil, List.append_nil]
      | cons next _ ih =>
          rw [List.flatMap_cons, ← List.append_assoc]
          exact ih ((Token.isDivided_append_mark rfl).mpr ⟨divided, next.isDivided⟩)

namespace Call

/-- Further calls are read from what shows them behind points. -/
theorem readTail_eq_ok_iff {tokens : List Token} {calls : List Call} :
    readTail tokens = .ok calls ↔
      ∃ pieces, List.Forall₂ Shows calls pieces ∧ tokens = pieces.flatMap (.dot :: ·) := by
  constructor
  · intro ok
    fun_induction readTail tokens generalizing calls with
    | case1 =>
        obtain ⟨⟩ := ok
        exact ⟨[], .nil, rfl⟩
    | case2 => cases ok
    | case3 rest call after read shorter ih =>
        obtain ⟨later, readLater, rfl⟩ := map_eq_ok.mp ok
        obtain ⟨shown, shows, rfl⟩ := readCall_eq_ok_iff.mp read
        obtain ⟨pieces, showsLater, rfl⟩ := ih readLater
        exact ⟨shown :: pieces, .cons shows showsLater, rfl⟩
    | case4 => cases ok
  · rintro ⟨pieces, shows, rfl⟩
    induction shows with
    | nil => rw [List.flatMap_nil, readTail]
    | @cons call shown calls pieces first _ ih =>
        have read : readCall (shown ++ pieces.flatMap (.dot :: ·)) =
            .ok (call, pieces.flatMap (.dot :: ·)) := readCall_eq_ok_iff.mpr ⟨shown, first, rfl⟩
        rw [List.flatMap_cons, List.cons_append, readTail]
        split
        · rename_i failed
          cases failed.symm.trans read
        · rename_i same
          obtain ⟨⟩ := same.symm.trans read
          rw [ih]
          rfl

/-- A chain of calls is read from what shows it, and from nothing else. -/
theorem readChain_eq_ok_iff {tokens : List Token} {chain : CallChain} :
    readChain tokens = .ok chain ↔ chain.Shows tokens := by
  unfold readChain
  constructor
  · intro ok
    split at ok
    · cases ok
    · rename_i head rest read
      obtain ⟨tail, readTail, rfl⟩ := map_eq_ok.mp ok
      obtain ⟨shown, shows, rfl⟩ := readCall_eq_ok_iff.mp read
      obtain ⟨pieces, showsTail, rfl⟩ := readTail_eq_ok_iff.mp readTail
      exact .mk shows showsTail
  · intro shows
    cases shows with
    | mk first rest =>
        rw [readCall_eq_ok_iff.mpr ⟨_, first, rfl⟩]
        exact congrArg (Except.map _) (readTail_eq_ok_iff.mpr ⟨_, rest, rfl⟩)

end Call

/-! ## Texts that are read -/

/-- Whether a text is a chain of calls in writing. -/
def CallChain.Renders (chain : CallChain) (text : String) : Prop :=
  ∃ tokens, chain.Shows tokens ∧ Token.Renders tokens text.toList

namespace CallChain

/-- A text is cut into tokens that are read as a chain exactly if it is the chain in writing. -/
theorem renders_iff {text : String} {chain : CallChain} :
    chain.Renders text ↔
      ∃ tokens, Token.scan text = .ok tokens ∧ Call.readChain tokens = .ok chain := by
  constructor
  · rintro ⟨tokens, shows, renders⟩
    exact ⟨tokens, Token.scanFrom_of_renders renders shows.isDivided 0,
      Call.readChain_eq_ok_iff.mpr shows⟩
  · rintro ⟨tokens, scans, reads⟩
    exact ⟨tokens, Call.readChain_eq_ok_iff.mp reads, Token.renders_of_scanFrom scans⟩

/-- Only the chain counts for what a text describes. -/
theorem Renders.readDescription {text : String} {chain : CallChain} (renders : chain.Renders text) :
    ItemReference.readDescription text = (ItemDescription.ofChain chain).mapError fun fault =>
      .item text (.description fault) := by
  obtain ⟨tokens, scans, reads⟩ := renders_iff.mp renders
  rw [ItemReference.readDescription, scans]
  change ((Call.readChain tokens).mapError _ >>= _) = _
  rw [reads]
  rfl

/-- A text is read as a chain of calls exactly if it renders the chain. A text renders one chain at
most, and what it describes depends on the chain alone: not on blanks, on the sort of quotes or on
commas behind last arguments. -/
theorem reads_iff_renders :
    (∀ text chain, (∃ tokens, Token.scan text = .ok tokens ∧ Call.readChain tokens = .ok chain) ↔
      Renders chain text) ∧
    (∀ text chain other, Renders chain text → Renders other text → chain = other) ∧
    (∀ text chain, Renders chain text → ItemReference.readDescription text =
      (ItemDescription.ofChain chain).mapError fun fault => .item text (.description fault)) ∧
    ∀ text description, ItemReference.readDescription text = .ok description ↔
      ∃ chain, Renders chain text ∧ ItemDescription.ofChain chain = .ok description := by
  refine ⟨fun text chain => renders_iff.symm, ?_, fun text chain => Renders.readDescription, ?_⟩
  · intro text chain other renders otherRenders
    obtain ⟨tokens, scans, reads⟩ := renders_iff.mp renders
    obtain ⟨_, again, otherReads⟩ := renders_iff.mp otherRenders
    obtain rfl := Except.ok.inj (scans.symm.trans again)
    exact Except.ok.inj (reads.symm.trans otherReads)
  · intro text description
    constructor
    · intro ok
      obtain ⟨tokens, scans, rest⟩ := bind_eq_ok.mp ok
      obtain ⟨chain, reads, rest⟩ := bind_eq_ok.mp rest
      exact ⟨chain, renders_iff.mpr ⟨tokens, mapError_eq_ok.mp scans, mapError_eq_ok.mp reads⟩,
        mapError_eq_ok.mp rest⟩
    · rintro ⟨chain, renders, describes⟩
      rw [renders.readDescription, describes]
      rfl

/-- A time dimension in two spellings. -/
theorem reads_iff_renders_creation :
    ∃ chain, Renders chain "TimeDimension('created_at', entity_path=['user']).grain('day')" ∧
      Renders chain "TimeDimension ( \"created_at\" , entity_path = [ 'user', ], ) . grain(\"day\")" ∧
      ItemReference.readDescription
        "TimeDimension ( \"created_at\" , entity_path = [ 'user', ], ) . grain(\"day\")" =
        .ok ⟨.timeDimension, "created_at", ["user"], some "day", none, none, none⟩ := by
  let chain : CallChain := ⟨⟨"TimeDimension", [.text "created_at"],
    [("entity_path", .list ["user"])]⟩, [⟨"grain", [.text "day"], []⟩]⟩
  have spaced : Renders chain
      "TimeDimension ( \"created_at\" , entity_path = [ 'user', ], ) . grain(\"day\")" :=
    (reads_iff_renders.1 _ _).mp ⟨[.word "TimeDimension", .leftParen, .text "created_at", .comma,
      .word "entity_path", .equals, .leftBracket, .text "user", .comma, .rightBracket, .comma,
      .rightParen, .dot, .word "grain", .leftParen, .text "day", .rightParen], by decide +kernel,
      by decide +kernel⟩
  refine ⟨chain, (reads_iff_renders.1 _ _).mp ⟨[.word "TimeDimension", .leftParen,
    .text "created_at", .comma, .word "entity_path", .equals, .leftBracket, .text "user",
    .rightBracket, .rightParen, .dot, .word "grain", .leftParen, .text "day", .rightParen],
    by decide +kernel, by decide +kernel⟩, spaced, ?_⟩
  rw [reads_iff_renders.2.2.1 _ _ spaced]
  decide +kernel

end CallChain

end MetricQuery
