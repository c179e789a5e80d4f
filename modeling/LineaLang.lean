import LineaLang.Compilation
import LineaLang.Main
import LineaLang.Proofs.Parsing.Blame.Program
import LineaLang.Proofs.Machine.Frames
import LineaLang.Proofs.Machine.Isolation
import LineaLang.Proofs.CommandLine.TreeRun
import LineaLang.Proofs.Scanning.LongestMatch
import LineaLang.Proofs.Scanning.Layout
import LineaLang.Proofs.Agreement
import LineaLang.Proofs.Machine.Termination
import LineaLang.Proofs.SameWords
import LineaLang.Proofs.Machine.Globals
import LineaLang.Proofs.Machine.Loops
import LineaLang.Proofs.Machine.Deeds
import LineaLang.Proofs.Parsing.OptionalWords
import LineaLang.Proofs.Tree.Rebuilding
import LineaLang.Proofs.Machine.StackMachine
import LineaLang.Proofs.Machine.Values
import LineaLang.Proofs.Parsing.Printed
import LineaLang.Proofs.Tree.Postfix
import LineaLang.Proofs.Tree.Nesting
import LineaLang.Proofs.Calculation.Order
import LineaLang.Proofs.Calculation.Shown
import LineaLang.Proofs.Machine.Unfolding
import LineaLang.Proofs.Scoping
import LineaLang.Proofs.Parsing.Reuse
import LineaLang.Proofs.Machine.Consoles
