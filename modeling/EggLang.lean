import EggLang.Main
import EggLang.Proofs.TypeSoundness
import EggLang.Proofs.Scopes
import EggLang.Proofs.History
import EggLang.Proofs.Session
import EggLang.Proofs.Bindings
import EggLang.Proofs.Uniformity
import EggLang.Proofs.Renaming
import EggLang.Proofs.Irrelevance
import EggLang.Proofs.Parse.Barrier
import EggLang.Proofs.Spacing
import EggLang.Proofs.Unambiguous
import EggLang.Proofs.LexError
import EggLang.Proofs.Maximal
import EggLang.Proofs.WellFormed
import EggLang.Proofs.Nesting
import EggLang.Proofs.Excerpt
import EggLang.Proofs.Grammar.Places
import EggLang.Proofs.Parse.Nodes
import EggLang.Proofs.Spans
import EggLang.Proofs.Targets
import EggLang.Proofs.Blame
import EggLang.Proofs.OpenComment
import EggLang.Proofs.Conditionals
import EggLang.Proofs.Stores
import EggLang.Proofs.WrittenBack
import EggLang.Proofs.Parse.Lookahead
import EggLang.Proofs.Calls
import EggLang.Proofs.Prompt
