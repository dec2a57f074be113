import WasmText.Source.Span
import WasmText.Source.Slice
import WasmText.Text.Utf8
import WasmText.Text.Printable
import WasmText.ValType
import WasmText.Opcode
import WasmText.Keyword
import WasmText.Numeral.Basic
import WasmText.Numeral.Rounding
import WasmText.Numeral.FloatReader
import WasmText.Numeral.Bits
import WasmText.Problem
import WasmText.Token.Basic
import WasmText.Token.Lexeme
import WasmText.Source
import WasmText.Token.Stream
import WasmText.Token.Lexer
import WasmText.Diagnostic
import WasmText.Diagnostic.Console
import WasmText.Form
import WasmText.Form.Reader
import WasmText.Form.LiveReader
import WasmText.Label
import WasmText.Instr
import WasmText.Module
import WasmText.Form.Expect
import WasmText.Module.Names
import WasmText.Module.TypeUse
import WasmText.Instr.Immediate
import WasmText.Instr.Body
import WasmText.Module.Draft
import WasmText.Instr.LiveBody
import WasmText.Outcome
import WasmText.Module.OfForms
import WasmText.Script
import WasmText.Script.OfForm
import WasmText.Script.OfSource
import WasmText.Proofs.Log
import WasmText.Proofs.Group
import WasmText.Proofs.Success
import WasmText.Proofs.Outcome
import WasmText.Proofs.Layout
import WasmText.Proofs.Recovery
import WasmText.Proofs.Words
import WasmText.Proofs.TypeUses
import WasmText.Proofs.Immediates
import WasmText.Proofs.BodySteps
import WasmText.Proofs.Sites
import WasmText.Proofs.Part
import WasmText.Proofs.Accepted
import WasmText.Proofs.FieldWords
import WasmText.Proofs.Branches
import WasmText.Proofs.Spaces
import WasmText.Proofs.Entities
import WasmText.Proofs.References
import WasmText.Proofs.Assembly
import WasmText.Proofs.Ranges
import WasmText.Proofs.Locality
import WasmText.Proofs.TopLevel
import WasmText.Proofs.Unfolding
import WasmText.Proofs.FlatRows
import WasmText.Proofs.Notations
import WasmText.Proofs.Blame
import WasmText.Proofs.BlamedBodies
import WasmText.Proofs.BlamedFields
import WasmText.Proofs.Places
import WasmText.Proofs.ReportOrder
import WasmText.Proofs.Extent
import WasmText.Proofs.Digits
import WasmText.Proofs.StringGrammar
import WasmText.Proofs.Relexing
import WasmText.Proofs.LineEnds
import WasmText.Proofs.Located
import WasmText.Proofs.Spacing
import WasmText.Proofs.Commands
import WasmText.Proofs.WrittenTypes
import WasmText.Proofs.FindsTypes
import WasmText.Proofs.TableGrowth
import WasmText.Proofs.FieldTypes
import WasmText.Proofs.TypeTable
import WasmText.Proofs.Reported
import WasmText.Proofs.Snippets
import WasmText.Proofs.OneModule
import WasmText.Proofs.Abandoned
import WasmText.Proofs.Accesses
import WasmText.Proofs.AccessedItems
import WasmText.Proofs.Adding
import WasmText.Proofs.Unspanned
import WasmText.Proofs.UnspannedBodies
import WasmText.Proofs.UnspannedFields
import WasmText.Proofs.FieldOrder
import WasmText.Proofs.Invariants
import WasmText.Proofs.WellFormed
import WasmText.Proofs.UnspannedCommands
import WasmText.Proofs.SameTokens
import WasmText.Proofs.Printing
import WasmText.Proofs.Decimals
import WasmText.Proofs.Numbering
import WasmText.Proofs.NumberedReading
import WasmText.Proofs.NumberedBodies
import WasmText.Proofs.Locals
import WasmText.Proofs.NamesAndNumbers
import WasmText.Proofs.Strays
import WasmText.Proofs.NumeralGrammar
import WasmText.Proofs.BinaryValues
import WasmText.Proofs.NearestPattern
import WasmText.Proofs.NumeralValues
import WasmText.Proofs.CheckedWords
import WasmText.Proofs.IntegerPatterns
import WasmText.Proofs.FloatReaders
import WasmText.Proofs.FloatBits
import WasmText.Proofs.DecimalPatterns
import WasmText.Proofs.HexPatterns
import WasmText.Proofs.SpecialPatterns
import WasmText.Proofs.FormInvariants
import WasmText.Proofs.Nesting
import WasmText.Proofs.Closing
import WasmText.Proofs.Wrapping
import WasmText.Proofs.Lexing
import WasmText.Proofs.LiveReading
import WasmText.Proofs.Lookahead
import WasmText.Proofs.Operands
import WasmText.Proofs.EvaluationOrder
import WasmText.Proofs.MemoryImmediates
import WasmText.Proofs.KeptModules
import WasmText.Proofs.LiveBodies
