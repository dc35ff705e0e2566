import WasmFloat.Literal.Journal
import WasmFloat.Literal.Presentation
import WasmFloat.Program
import WasmFloat.Proofs.Bytes
import WasmFloat.Proofs.Digits
import WasmFloat.Proofs.Fields
import WasmFloat.Proofs.SquareRoot
import WasmFloat.Transport.Diagnostic
import WasmFloat.Proofs.Nearest
import WasmFloat.Proofs.Grammar
import WasmFloat.Proofs.Literals
import WasmFloat.Proofs.Packing
import WasmFloat.Proofs.Values
import WasmFloat.Proofs.HexadecimalLiterals
import WasmFloat.Proofs.DecimalRounding
import WasmFloat.Proofs.DecimalText
import WasmFloat.Proofs.RoundTrip
import WasmFloat.Proofs.Integers
import WasmFloat.Proofs.Narrowing
import WasmFloat.Proofs.Items
import WasmFloat.Proofs.Transport
import WasmFloat.Proofs.HexadecimalText
import WasmFloat.Proofs.DecimalLiterals
import WasmFloat.Proofs.Rounded
import WasmFloat.Proofs.Products
import WasmFloat.Proofs.Order
import WasmFloat.Proofs.Noninterference
import WasmFloat.Proofs.Encodings
import WasmFloat.Proofs.LiteralOrder
import WasmFloat.Proofs.Extremes
import WasmFloat.Proofs.IntegralRounding
import WasmFloat.Proofs.NearestByDistance
import WasmFloat.Proofs.Shortest
import WasmFloat.Proofs.Significance
import WasmFloat.Proofs.ShortestLiteral
import WasmFloat.Proofs.RootRounding
import WasmFloat.Proofs.Comparisons
import WasmFloat.Proofs.DirectedRounding
import WasmFloat.Proofs.IntegerItems
import WasmFloat.Proofs.Payloads
import WasmFloat.Proofs.NormalForm
import WasmFloat.Proofs.SaturatedPacking
import WasmFloat.Proofs.ExponentCut
import WasmFloat.Proofs.DigitLoops
import WasmFloat.Proofs.CheckedCodec
