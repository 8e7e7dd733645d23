import PlantGrammar.Plant
import PlantGrammar.Ron.Schema
import PlantGrammar.Storage.Document
import PlantGrammar.Proofs.Grammar.Within
import PlantGrammar.Proofs.Brackets
import PlantGrammar.Proofs.Grammar.Growth
import PlantGrammar.Proofs.Grammar.Nesting
import PlantGrammar.Proofs.Turtle.Calls
import PlantGrammar.Proofs.Turtle.Nesting
import PlantGrammar.Proofs.Drawing.Lockstep
import PlantGrammar.Proofs.Drawing.OpenPath
import PlantGrammar.Proofs.Drawing.Tags
import PlantGrammar.Proofs.Drawing.Bounds
import PlantGrammar.Proofs.Matching
import PlantGrammar.Proofs.Numeric.Order
import PlantGrammar.Proofs.Numeric.Text
import PlantGrammar.Proofs.Turtle.Unmatched
import PlantGrammar.Proofs.Parameters
import PlantGrammar.Proofs.Clamping
import PlantGrammar.Proofs.Numeric.Product
import PlantGrammar.Proofs.BranchLength
import PlantGrammar.Proofs.Picture
import PlantGrammar.Proofs.Ron.Drawing
import PlantGrammar.Proofs.Turtle.Drawable
import PlantGrammar.Proofs.Ron.Quoted
import PlantGrammar.Proofs.Ron.Number
import PlantGrammar.Proofs.Ron.Codec
import PlantGrammar.Proofs.Ron.Schema
import PlantGrammar.Proofs.Ron.Layout
import PlantGrammar.Proofs.Ron.Grammar
import PlantGrammar.Proofs.Ron.Numeral
import PlantGrammar.Proofs.Ron.Literal
import PlantGrammar.Proofs.Ron.Skipping
import PlantGrammar.Proofs.Ron.Depth
import PlantGrammar.Proofs.Ron.Typed
import PlantGrammar.Proofs.Ron.Listing
import PlantGrammar.Proofs.Ron.Refusal
import PlantGrammar.Proofs.Ron.Written
import PlantGrammar.Proofs.Ron.Partial
import PlantGrammar.Proofs.Turtle.Discipline
import PlantGrammar.Proofs.Drawing.Motion
import PlantGrammar.Proofs.Drawing.Print
import PlantGrammar.Proofs.Reach
import PlantGrammar.Proofs.Grammar.Diagnosis
import PlantGrammar.Proofs.Grammar.Composition
import PlantGrammar.Proofs.Grammar.Precedence
import PlantGrammar.Proofs.Grammar.NonErasing
import PlantGrammar.Proofs.Grammar.Counts
import PlantGrammar.Proofs.Storage.Together
import PlantGrammar.Proofs.Turtle.Pieces
import PlantGrammar.Proofs.Turtle.Silence
import PlantGrammar.Proofs.Turtle.Branch
