import NuMakerMA35.HexText
import NuMakerMA35.UartRx
import NuMakerMA35.ModQuotient

namespace NuMakerMA35

open HexText ModQuotient

inductive EccCurveId where
  | p192
  | p224
  | p256
  | p384
  | p521
  | k163
  | k233
  | k283
  | k409
  | k571
  | b163
  | b233
  | b283
  | b409
  | b571
  | ko192
  | ko224
  | ko256
  | bp256
  | bp384
  | bp512
  | sm2p256
  | curve25519
  | undef
deriving DecidableEq

inductive EccField where
  | gfP
  | gf2m
deriving DecidableEq

/-- A text of hex digits by its length and the number that it names; no function of the driver tells
the two cases of a letter apart. -/
structure HexLiteral where
  length : Nat
  number : Nat

def HexLiteral.text (literal : HexLiteral) : List Byte := hexText literal.length literal.number

/-- An entry of `_Curve`; the decimal lengths are never read. -/
structure EccCurve where
  curveId : EccCurveId
  echar : Nat
  ea : HexLiteral
  eb : HexLiteral
  px : HexLiteral
  py : HexLiteral
  pp : HexLiteral
  eorder : HexLiteral
  keyLen : Nat
  irreducibleK1 : Nat
  irreducibleK2 : Nat
  irreducibleK3 : Nat
  gf : EccField

def eccCurves : List EccCurve := [
  { curveId := .p192
    echar := 48
    ea := ⟨48, 0xFFFFFFFFFFFFFFFFFFFFFFFFFFFFFFFEFFFFFFFFFFFFFFFC⟩
    eb := ⟨48, 0x64210519e59c80e70fa7e9ab72243049feb8deecc146b9b1⟩
    px := ⟨48, 0x188da80eb03090f67cbf20eb43a18800f4ff0afd82ff1012⟩
    py := ⟨48, 0x07192b95ffc8da78631011ed6b24cdd573f977a11e794811⟩
    pp := ⟨48, 0xFFFFFFFFFFFFFFFFFFFFFFFFFFFFFFFEFFFFFFFFFFFFFFFF⟩
    eorder := ⟨48, 0xFFFFFFFFFFFFFFFFFFFFFFFF99DEF836146BC9B1B4D22831⟩
    keyLen := 192
    irreducibleK1 := 7
    irreducibleK2 := 2
    irreducibleK3 := 1
    gf := .gfP },
  { curveId := .p224
    echar := 56
    ea := ⟨56, 0xFFFFFFFFFFFFFFFFFFFFFFFFFFFFFFFEFFFFFFFFFFFFFFFFFFFFFFFE⟩
    eb := ⟨56, 0xb4050a850c04b3abf54132565044b0b7d7bfd8ba270b39432355ffb4⟩
    px := ⟨56, 0xb70e0cbd6bb4bf7f321390b94a03c1d356c21122343280d6115c1d21⟩
    py := ⟨56, 0xbd376388b5f723fb4c22dfe6cd4375a05a07476444d5819985007e34⟩
    pp := ⟨56, 0xFFFFFFFFFFFFFFFFFFFFFFFFFFFFFFFF000000000000000000000001⟩
    eorder := ⟨56, 0xFFFFFFFFFFFFFFFFFFFFFFFFFFFF16A2E0B8F03E13DD29455C5C2A3D⟩
    keyLen := 224
    irreducibleK1 := 9
    irreducibleK2 := 8
    irreducibleK3 := 3
    gf := .gfP },
  { curveId := .p256
    echar := 64
    ea := ⟨64, 0xFFFFFFFF00000001000000000000000000000000FFFFFFFFFFFFFFFFFFFFFFFC⟩
    eb := ⟨64, 0x5ac635d8aa3a93e7b3ebbd55769886bc651d06b0cc53b0f63bce3c3e27d2604b⟩
    px := ⟨64, 0x6b17d1f2e12c4247f8bce6e563a440f277037d812deb33a0f4a13945d898c296⟩
    py := ⟨64, 0x4fe342e2fe1a7f9b8ee7eb4a7c0f9e162bce33576b315ececbb6406837bf51f5⟩
    pp := ⟨64, 0xFFFFFFFF00000001000000000000000000000000FFFFFFFFFFFFFFFFFFFFFFFF⟩
    eorder := ⟨64, 0xFFFFFFFF00000000FFFFFFFFFFFFFFFFBCE6FAADA7179E84F3B9CAC2FC632551⟩
    keyLen := 256
    irreducibleK1 := 10
    irreducibleK2 := 5
    irreducibleK3 := 2
    gf := .gfP },
  { curveId := .p384
    echar := 96
    ea := ⟨96, 0xFFFFFFFFFFFFFFFFFFFFFFFFFFFFFFFFFFFFFFFFFFFFFFFFFFFFFFFFFFFFFFFEFFFFFFFF0000000000000000FFFFFFFC⟩
    eb := ⟨96, 0xb3312fa7e23ee7e4988e056be3f82d19181d9c6efe8141120314088f5013875ac656398d8a2ed19d2a85c8edd3ec2aef⟩
    px := ⟨96, 0xaa87ca22be8b05378eb1c71ef320ad746e1d3b628ba79b9859f741e082542a385502f25dbf55296c3a545e3872760ab7⟩
    py := ⟨96, 0x3617de4a96262c6f5d9e98bf9292dc29f8f41dbd289a147ce9da3113b5f0b8c00a60b1ce1d7e819d7a431d7c90ea0e5f⟩
    pp := ⟨96, 0xFFFFFFFFFFFFFFFFFFFFFFFFFFFFFFFFFFFFFFFFFFFFFFFFFFFFFFFFFFFFFFFEFFFFFFFF0000000000000000FFFFFFFF⟩
    eorder := ⟨96, 0xFFFFFFFFFFFFFFFFFFFFFFFFFFFFFFFFFFFFFFFFFFFFFFFFC7634D81F4372DDF581A0DB248B0A77AECEC196ACCC52973⟩
    keyLen := 384
    irreducibleK1 := 12
    irreducibleK2 := 3
    irreducibleK3 := 2
    gf := .gfP },
  { curveId := .p521
    echar := 131
    ea := ⟨131, 0x1FFFFFFFFFFFFFFFFFFFFFFFFFFFFFFFFFFFFFFFFFFFFFFFFFFFFFFFFFFFFFFFFFFFFFFFFFFFFFFFFFFFFFFFFFFFFFFFFFFFFFFFFFFFFFFFFFFFFFFFFFFFFFFFFFC⟩
    eb := ⟨131, 0x051953eb9618e1c9a1f929a21a0b68540eea2da725b99b315f3b8b489918ef109e156193951ec7e937b1652c0bd3bb1bf073573df883d2c34f1ef451fd46b503f00⟩
    px := ⟨131, 0x0c6858e06b70404e9cd9e3ecb662395b4429c648139053fb521f828af606b4d3dbaa14b5e77efe75928fe1dc127a2ffa8de3348b3c1856a429bf97e7e31c2e5bd66⟩
    py := ⟨131, 0x11839296a789a3bc0045c8a5fb42c7d1bd998f54449579b446817afbd17273e662c97ee72995ef42640c550b9013fad0761353c7086a272c24088be94769fd16650⟩
    pp := ⟨131, 0x1FFFFFFFFFFFFFFFFFFFFFFFFFFFFFFFFFFFFFFFFFFFFFFFFFFFFFFFFFFFFFFFFFFFFFFFFFFFFFFFFFFFFFFFFFFFFFFFFFFFFFFFFFFFFFFFFFFFFFFFFFFFFFFFFFF⟩
    eorder := ⟨131, 0x1FFFFFFFFFFFFFFFFFFFFFFFFFFFFFFFFFFFFFFFFFFFFFFFFFFFFFFFFFFFFFFFFFA51868783BF2F966B7FCC0148F709A5D03BB5C9B8899C47AEBB6FB71E91386409⟩
    keyLen := 521
    irreducibleK1 := 32
    irreducibleK2 := 32
    irreducibleK3 := 32
    gf := .gfP },
  { curveId := .b163
    echar := 41
    ea := ⟨41, 0x00000000000000000000000000000000000000001⟩
    eb := ⟨41, 0x20a601907b8c953ca1481eb10512f78744a3205fd⟩
    px := ⟨41, 0x3f0eba16286a2d57ea0991168d4994637e8343e36⟩
    py := ⟨41, 0x0d51fbc6c71a0094fa2cdd545b11c5c0c797324f1⟩
    pp := ⟨56, 0xFFFFFFFFFFFFFFFFFFFFFFFFFFFFFFFF000000000000000000000001⟩
    eorder := ⟨41, 0x40000000000000000000292FE77E70C12A4234C33⟩
    keyLen := 163
    irreducibleK1 := 7
    irreducibleK2 := 6
    irreducibleK3 := 3
    gf := .gf2m },
  { curveId := .b233
    echar := 59
    ea := ⟨59, 0x00000000000000000000000000000000000000000000000000000000001⟩
    eb := ⟨59, 0x066647ede6c332c7f8c0923bb58213b333b20e9ce4281fe115f7d8f90ad⟩
    px := ⟨59, 0x0fac9dfcbac8313bb2139f1bb755fef65bc391f8b36f8f8eb7371fd558b⟩
    py := ⟨59, 0x1006a08a41903350678e58528bebf8a0beff867a7ca36716f7e01f81052⟩
    pp := ⟨56, 0xFFFFFFFFFFFFFFFFFFFFFFFFFFFFFFFF000000000000000000000001⟩
    eorder := ⟨59, 0x1000000000000000000000000000013E974E72F8A6922031D2603CFE0D7⟩
    keyLen := 233
    irreducibleK1 := 74
    irreducibleK2 := 74
    irreducibleK3 := 74
    gf := .gf2m },
  { curveId := .b283
    echar := 71
    ea := ⟨71, 0x00000000000000000000000000000000000000000000000000000000000000000000001⟩
    eb := ⟨71, 0x27b680ac8b8596da5a4af8a19a0303fca97fd7645309fa2a581485af6263e313b79a2f5⟩
    px := ⟨71, 0x5f939258db7dd90e1934f8c70b0dfec2eed25b8557eac9c80e2e198f8cdbecd86b12053⟩
    py := ⟨71, 0x3676854fe24141cb98fe6d4b20d02b4516ff702350eddb0826779c813f0df45be8112f4⟩
    pp := ⟨56, 0xFFFFFFFFFFFFFFFFFFFFFFFFFFFFFFFF000000000000000000000001⟩
    eorder := ⟨71, 0x3FFFFFFFFFFFFFFFFFFFFFFFFFFFFFFFFFFEF90399660FC938A90165B042A7CEFADB307⟩
    keyLen := 283
    irreducibleK1 := 12
    irreducibleK2 := 7
    irreducibleK3 := 5
    gf := .gf2m },
  { curveId := .b409
    echar := 103
    ea := ⟨103, 0x0000000000000000000000000000000000000000000000000000000000000000000000000000000000000000000000000000001⟩
    eb := ⟨103, 0x021a5c2c8ee9feb5c4b9a753b7b476b7fd6422ef1f3dd674761fa99d6ac27c8a9a197b272822f6cd57a55aa4f50ae317b13545f⟩
    px := ⟨103, 0x15d4860d088ddb3496b0c6064756260441cde4af1771d4db01ffe5b34e59703dc255a868a1180515603aeab60794e54bb7996a7⟩
    py := ⟨103, 0x061b1cfab6be5f32bbfa78324ed106a7636b9c5a7bd198d0158aa4f5488d08f38514f1fdf4b4f40d2181b3681c364ba0273c706⟩
    pp := ⟨56, 0xFFFFFFFFFFFFFFFFFFFFFFFFFFFFFFFF000000000000000000000001⟩
    eorder := ⟨103, 0x10000000000000000000000000000000000000000000000000001E2AAD6A612F33307BE5FA47C3C9E052F838164CD37D9A21173⟩
    keyLen := 409
    irreducibleK1 := 87
    irreducibleK2 := 87
    irreducibleK3 := 87
    gf := .gf2m },
  { curveId := .b571
    echar := 143
    ea := ⟨143, 0x00000000000000000000000000000000000000000000000000000000000000000000000000000000000000000000000000000000000000000000000000000000000000000000001⟩
    eb := ⟨143, 0x2f40e7e2221f295de297117b7f3d62f5c6a97ffcb8ceff1cd6ba8ce4a9a18ad84ffabbd8efa59332be7ad6756a66e294afd185a78ff12aa520e4de739baca0c7ffeff7f2955727a⟩
    px := ⟨143, 0x303001d34b856296c16c0d40d3cd7750a93d1d2955fa80aa5f40fc8db7b2abdbde53950f4c0d293cdd711a35b67fb1499ae60038614f1394abfa3b4c850d927e1e7769c8eec2d19⟩
    py := ⟨143, 0x37bf27342da639b6dccfffeb73d69d78c6c27a6009cbbca1980f8533921e8a684423e43bab08a576291af8f461bb2a8b3531d2f0485c19b16e2f1516e23dd3c1a4827af1b8ac15b⟩
    pp := ⟨56, 0xFFFFFFFFFFFFFFFFFFFFFFFFFFFFFFFF000000000000000000000001⟩
    eorder := ⟨143, 0x3FFFFFFFFFFFFFFFFFFFFFFFFFFFFFFFFFFFFFFFFFFFFFFFFFFFFFFFFFFFFFFFFFFFFFFE661CE18FF55987308059B186823851EC7DD9CA1161DE93D5174D66E8382E9BB2FE84E47⟩
    keyLen := 571
    irreducibleK1 := 10
    irreducibleK2 := 5
    irreducibleK3 := 2
    gf := .gf2m },
  { curveId := .k163
    echar := 41
    ea := ⟨41, 0x00000000000000000000000000000000000000001⟩
    eb := ⟨41, 0x00000000000000000000000000000000000000001⟩
    px := ⟨41, 0x2fe13c0537bbc11acaa07d793de4e6d5e5c94eee8⟩
    py := ⟨41, 0x289070fb05d38ff58321f2e800536d538ccdaa3d9⟩
    pp := ⟨56, 0xFFFFFFFFFFFFFFFFFFFFFFFFFFFFFFFF000000000000000000000001⟩
    eorder := ⟨41, 0x4000000000000000000020108A2E0CC0D99F8A5EF⟩
    keyLen := 163
    irreducibleK1 := 7
    irreducibleK2 := 6
    irreducibleK3 := 3
    gf := .gf2m },
  { curveId := .k233
    echar := 59
    ea := ⟨59, 0x00000000000000000000000000000000000000000000000000000000000⟩
    eb := ⟨59, 0x00000000000000000000000000000000000000000000000000000000001⟩
    px := ⟨59, 0x17232ba853a7e731af129f22ff4149563a419c26bf50a4c9d6eefad6126⟩
    py := ⟨59, 0x1db537dece819b7f70f555a67c427a8cd9bf18aeb9b56e0c11056fae6a3⟩
    pp := ⟨56, 0xFFFFFFFFFFFFFFFFFFFFFFFFFFFFFFFF000000000000000000000001⟩
    eorder := ⟨58, 0x8000000000000000000000000000069D5BB915BCD46EFB1AD5F173ABDF⟩
    keyLen := 233
    irreducibleK1 := 74
    irreducibleK2 := 74
    irreducibleK3 := 74
    gf := .gf2m },
  { curveId := .k283
    echar := 71
    ea := ⟨71, 0x00000000000000000000000000000000000000000000000000000000000000000000000⟩
    eb := ⟨71, 0x00000000000000000000000000000000000000000000000000000000000000000000001⟩
    px := ⟨71, 0x503213f78ca44883f1a3b8162f188e553cd265f23c1567a16876913b0c2ac2458492836⟩
    py := ⟨71, 0x1ccda380f1c9e318d90f95d07e5426fe87e45c0e8184698e45962364e34116177dd2259⟩
    pp := ⟨56, 0xFFFFFFFFFFFFFFFFFFFFFFFFFFFFFFFF000000000000000000000001⟩
    eorder := ⟨71, 0x1FFFFFFFFFFFFFFFFFFFFFFFFFFFFFFFFFFE9AE2ED07577265DFF7F94451E061E163C61⟩
    keyLen := 283
    irreducibleK1 := 12
    irreducibleK2 := 7
    irreducibleK3 := 5
    gf := .gf2m },
  { curveId := .k409
    echar := 103
    ea := ⟨103, 0x0000000000000000000000000000000000000000000000000000000000000000000000000000000000000000000000000000000⟩
    eb := ⟨103, 0x0000000000000000000000000000000000000000000000000000000000000000000000000000000000000000000000000000001⟩
    px := ⟨103, 0x060f05f658f49c1ad3ab1890f7184210efd0987e307c84c27accfb8f9f67cc2c460189eb5aaaa62ee222eb1b35540cfe9023746⟩
    py := ⟨103, 0x1e369050b7c4e42acba1dacbf04299c3460782f918ea427e6325165e9ea10e3da5f6c42e9c55215aa9ca27a5863ec48d8e0286b⟩
    pp := ⟨56, 0xFFFFFFFFFFFFFFFFFFFFFFFFFFFFFFFF000000000000000000000001⟩
    eorder := ⟨102, 0x7FFFFFFFFFFFFFFFFFFFFFFFFFFFFFFFFFFFFFFFFFFFFFFFFFFE5F83B2D4EA20400EC4557D5ED3E3E7CA5B4B5C83B8E01E5FCF⟩
    keyLen := 409
    irreducibleK1 := 87
    irreducibleK2 := 87
    irreducibleK3 := 87
    gf := .gf2m },
  { curveId := .k571
    echar := 143
    ea := ⟨143, 0x00000000000000000000000000000000000000000000000000000000000000000000000000000000000000000000000000000000000000000000000000000000000000000000000⟩
    eb := ⟨143, 0x00000000000000000000000000000000000000000000000000000000000000000000000000000000000000000000000000000000000000000000000000000000000000000000001⟩
    px := ⟨143, 0x26eb7a859923fbc82189631f8103fe4ac9ca2970012d5d46024804801841ca44370958493b205e647da304db4ceb08cbbd1ba39494776fb988b47174dca88c7e2945283a01c8972⟩
    py := ⟨143, 0x349dc807f4fbf374f4aeade3bca95314dd58cec9f307a54ffc61efc006d8a2c9d4979c0ac44aea74fbebbb9f772aedcb620b01a7ba7af1b320430c8591984f601cd4c143ef1c7a3⟩
    pp := ⟨56, 0xFFFFFFFFFFFFFFFFFFFFFFFFFFFFFFFF000000000000000000000001⟩
    eorder := ⟨143, 0x20000000000000000000000000000000000000000000000000000000000000000000000131850E1F19A63E4B391A8DB917F4138B630D84BE5D639381E91DEB45CFE778F637C1001⟩
    keyLen := 571
    irreducibleK1 := 10
    irreducibleK2 := 5
    irreducibleK3 := 2
    gf := .gf2m },
  { curveId := .ko192
    echar := 48
    ea := ⟨41, 0x00000000000000000000000000000000000000000⟩
    eb := ⟨41, 0x00000000000000000000000000000000000000003⟩
    px := ⟨48, 0xDB4FF10EC057E9AE26B07D0280B7F4341DA5D1B1EAE06C7D⟩
    py := ⟨48, 0x9B2F2F6D9C5628A7844163D015BE86344082AA88D95E2F9D⟩
    pp := ⟨48, 0xFFFFFFFFFFFFFFFFFFFFFFFFFFFFFFFFFFFFFFFEFFFFEE37⟩
    eorder := ⟨48, 0xFFFFFFFFFFFFFFFFFFFFFFFE26F2FC170F69466A74DEFD8D⟩
    keyLen := 192
    irreducibleK1 := 7
    irreducibleK2 := 2
    irreducibleK3 := 1
    gf := .gfP },
  { curveId := .ko224
    echar := 56
    ea := ⟨56, 0x00000000000000000000000000000000000000000000000000000000⟩
    eb := ⟨56, 0x00000000000000000000000000000000000000000000000000000005⟩
    px := ⟨56, 0xA1455B334DF099DF30FC28A169A467E9E47075A90F7E650EB6B7A45C⟩
    py := ⟨56, 0x7E089FED7FBA344282CAFBD6F7E319F7C0B0BD59E2CA4BDB556D61A5⟩
    pp := ⟨56, 0xFFFFFFFFFFFFFFFFFFFFFFFFFFFFFFFFFFFFFFFFFFFFFFFEFFFFE56D⟩
    eorder := ⟨56, 0x0000000000000000000000000001DCE8D2EC6184CAF0A971769FB1F7⟩
    keyLen := 224
    irreducibleK1 := 7
    irreducibleK2 := 2
    irreducibleK3 := 1
    gf := .gfP },
  { curveId := .ko256
    echar := 64
    ea := ⟨64, 0x0000000000000000000000000000000000000000000000000000000000000000⟩
    eb := ⟨64, 0x0000000000000000000000000000000000000000000000000000000000000007⟩
    px := ⟨64, 0x79BE667EF9DCBBAC55A06295CE870B07029BFCDB2DCE28D959F2815B16F81798⟩
    py := ⟨64, 0x483ADA7726A3C4655DA4FBFC0E1108A8FD17B448A68554199C47D08FFB10D4B8⟩
    pp := ⟨64, 0xFFFFFFFFFFFFFFFFFFFFFFFFFFFFFFFFFFFFFFFFFFFFFFFFFFFFFFFEFFFFFC2F⟩
    eorder := ⟨64, 0xFFFFFFFFFFFFFFFFFFFFFFFFFFFFFFFEBAAEDCE6AF48A03BBFD25E8CD0364141⟩
    keyLen := 256
    irreducibleK1 := 7
    irreducibleK2 := 2
    irreducibleK3 := 1
    gf := .gfP },
  { curveId := .bp256
    echar := 64
    ea := ⟨64, 0x7D5A0975FC2C3057EEF67530417AFFE7FB8055C126DC5C6CE94A4B44F330B5D9⟩
    eb := ⟨64, 0x26DC5C6CE94A4B44F330B5D9BBD77CBF958416295CF7E1CE6BCCDC18FF8C07B6⟩
    px := ⟨64, 0x8BD2AEB9CB7E57CB2C4B482FFC81B7AFB9DE27E1E3BD23C23A4453BD9ACE3262⟩
    py := ⟨64, 0x547EF835C3DAC4FD97F8461A14611DC9C27745132DED8E545C1D54C72F046997⟩
    pp := ⟨64, 0xA9FB57DBA1EEA9BC3E660A909D838D726E3BF623D52620282013481D1F6E5377⟩
    eorder := ⟨64, 0xA9FB57DBA1EEA9BC3E660A909D838D718C397AA3B561A6F7901E0E82974856A7⟩
    keyLen := 256
    irreducibleK1 := 7
    irreducibleK2 := 2
    irreducibleK3 := 1
    gf := .gfP },
  { curveId := .bp384
    echar := 96
    ea := ⟨96, 0x7BC382C63D8C150C3C72080ACE05AFA0C2BEA28E4FB22787139165EFBA91F90F8AA5814A503AD4EB04A8C7DD22CE2826⟩
    eb := ⟨96, 0x04A8C7DD22CE28268B39B55416F0447C2FB77DE107DCD2A62E880EA53EEB62D57CB4390295DBC9943AB78696FA504C11⟩
    px := ⟨96, 0x1D1C64F068CF45FFA2A63A81B7C13F6B8847A3E77EF14FE3DB7FCAFE0CBD10E8E826E03436D646AAEF87B2E247D4AF1E⟩
    py := ⟨96, 0x8ABE1D7520F9C2A45CB1EB8E95CFD55262B70B29FEEC5864E19C054FF99129280E4646217791811142820341263C5315⟩
    pp := ⟨96, 0x8CB91E82A3386D280F5D6F7E50E641DF152F7109ED5456B412B1DA197FB71123ACD3A729901D1A71874700133107EC53⟩
    eorder := ⟨96, 0x8CB91E82A3386D280F5D6F7E50E641DF152F7109ED5456B31F166E6CAC0425A7CF3AB6AF6B7FC3103B883202E9046565⟩
    keyLen := 384
    irreducibleK1 := 7
    irreducibleK2 := 2
    irreducibleK3 := 1
    gf := .gfP },
  { curveId := .bp512
    echar := 128
    ea := ⟨128, 0x7830A3318B603B89E2327145AC234CC594CBDD8D3DF91610A83441CAEA9863BC2DED5D5AA8253AA10A2EF1C98B9AC8B57F1117A72BF2C7B9E7C1AC4D77FC94CA⟩
    eb := ⟨128, 0x3DF91610A83441CAEA9863BC2DED5D5AA8253AA10A2EF1C98B9AC8B57F1117A72BF2C7B9E7C1AC4D77FC94CADC083E67984050B75EBAE5DD2809BD638016F723⟩
    px := ⟨128, 0x81AEE4BDD82ED9645A21322E9C4C6A9385ED9F70B5D916C1B43B62EEF4D0098EFF3B1F78E2D0D48D50D1687B93B97D5F7C6D5047406A5E688B352209BCB9F822⟩
    py := ⟨128, 0x7DDE385D566332ECC0EABFA9CF7822FDF209F70024A57B1AA000C55B881F8111B2DCDE494A5F485E5BCA4BD88A2763AED1CA2B2FA8F0540678CD1E0F3AD80892⟩
    pp := ⟨128, 0xAADD9DB8DBE9C48B3FD4E6AE33C9FC07CB308DB3B3C9D20ED6639CCA703308717D4D9B009BC66842AECDA12AE6A380E62881FF2F2D82C68528AA6056583A48F3⟩
    eorder := ⟨128, 0xAADD9DB8DBE9C48B3FD4E6AE33C9FC07CB308DB3B3C9D20ED6639CCA70330870553E5C414CA92619418661197FAC10471DB1D381085DDADDB58796829CA90069⟩
    keyLen := 512
    irreducibleK1 := 7
    irreducibleK2 := 2
    irreducibleK3 := 1
    gf := .gfP },
  { curveId := .sm2p256
    echar := 64
    ea := ⟨64, 0xFFFFFFFEFFFFFFFFFFFFFFFFFFFFFFFFFFFFFFFF00000000FFFFFFFFFFFFFFFC⟩
    eb := ⟨64, 0x28E9FA9E9D9F5E344D5A9E4BCF6509A7F39789F515AB8F92DDBCBD414D940E93⟩
    px := ⟨64, 0x32C4AE2C1F1981195F9904466A39C9948FE30BBFF2660BE1715A4589334C74C7⟩
    py := ⟨64, 0xBC3736A2F4F6779C59BDCEE36B692153D0A9877CC62A474002DF32E52139F0A0⟩
    pp := ⟨64, 0xFFFFFFFEFFFFFFFFFFFFFFFFFFFFFFFFFFFFFFFF00000000FFFFFFFFFFFFFFFF⟩
    eorder := ⟨64, 0xFFFFFFFEFFFFFFFFFFFFFFFFFFFFFFFF7203DF6B21C6052B53BBF40939D54123⟩
    keyLen := 256
    irreducibleK1 := 10
    irreducibleK2 := 5
    irreducibleK3 := 2
    gf := .gfP },
  { curveId := .curve25519
    echar := 64
    ea := ⟨64, 0x0000000000000000000000000000000000000000000000000000000000076D06⟩
    eb := ⟨64, 0x0000000000000000000000000000000000000000000000000000000000000001⟩
    px := ⟨64, 0x0000000000000000000000000000000000000000000000000000000000000009⟩
    py := ⟨64, 0x20ae19a1b8a086b4e01edd2c7748d14c923d4d7e6d7c61b229e9c5a27eced3d9⟩
    pp := ⟨64, 0x7FFFFFFFFFFFFFFFFFFFFFFFFFFFFFFFFFFFFFFFFFFFFFFFFFFFFFFFFFFFFFED⟩
    eorder := ⟨64, 0x1000000000000000000000000000000014def9dea2f79cd65812631a5cf5d3ed⟩
    keyLen := 255
    irreducibleK1 := 10
    irreducibleK2 := 5
    irreducibleK3 := 2
    gf := .gfP }]

def getCurve (eccCurve : EccCurveId) : Option EccCurve :=
  eccCurves.find? fun c => c.curveId == eccCurve

@[ext] structure EccReg where
  words : List U32
  size : words.length = 18

namespace EccReg

def zero : EccReg := ⟨List.replicate 18 0, by simp⟩

def value (reg : EccReg) : Nat := Nat.ofDigits (2 ^ 32) (reg.words.map BitVec.toNat)

def ofNat (v : Nat) : EccReg := ⟨(List.range 18).map fun i => BitVec.ofNat 32 (v / 2 ^ (32 * i)), by simp⟩

/-- Words written from the first on; there is no result where they would leave the array. -/
def store (reg : EccReg) (words : List U32) : Option EccReg :=
  if inside : words.length ≤ 18 then
    some ⟨words ++ reg.words.drop words.length, by simp [reg.size]; omega⟩
  else none

def orBit (reg : EccReg) (bit : Nat) : EccReg :=
  ⟨reg.words.modify (bit / 32) fun word => word ||| 1 <<< (bit % 32), by simp [reg.size]⟩

end EccReg

def ch2hex (ch : Byte) : Byte :=
  if ch ≤ 57 then ch - 48
  else if ch ≤ 122 ∧ 97 ≤ ch then ch - 97 + 10
  else ch - 65 + 10

/-- The inner loop of `Hex2Reg` over up to eight characters, from the last one back. -/
def hexWordLoop : List Byte → Nat → U32 → U32
  | [], _, val32 => val32
  | ch :: rest, i, val32 => hexWordLoop rest (i + 1) (val32 ||| (ch2hex ch).setWidth 32 <<< (i * 4))

def hexWords : Nat → List Byte → List U32
  | 0, _ => []
  | turns + 1, text => hexWordLoop (text.take 8) 0 0 :: hexWords turns (text.drop 8)

/-- `Hex2Reg` on a text without its final zero. -/
def hex2Reg (input : List Byte) (reg : EccReg) : Option EccReg :=
  reg.store (hexWords ((input.length + 7) / 8) input.reverse)

def hexTable : List Byte := hexText 16 0x0123456789abcdef

def getNthNibbleChar (val32 : U32) (idx : Nat) : Byte :=
  hexTable.getD ((val32 >>> (idx * 4)) &&& 0xf).toNat 0

/-- `Reg2Hex`: nibble `j` comes `j` places before the last character. -/
def reg2Hex (count : Nat) (reg : EccReg) : List Byte :=
  ((List.range count).map fun j => getNthNibbleChar (reg.words.getD (j / 8) 0) (j % 8)).reverse

def eccLower (c : Byte) : Byte := if 65 ≤ c ∧ c ≤ 90 then c + 32 else c

def eccStrcmpLoop : List Byte → List Byte → Int
  | [], [] => 0
  | c1 :: s1, c2 :: s2 => if eccLower c1 ≠ eccLower c2 then 1 else eccStrcmpLoop s1 s2
  | [], _ :: _ => 1
  | _ :: _, [] => 1

def eccStrcmp (s1 s2 : List Byte) : Int :=
  eccStrcmpLoop (s1.dropWhile (· == 48)) (s2.dropWhile (· == 48))

structure EccRegs where
  a : EccReg
  b : EccReg
  x1 : EccReg
  y1 : EccReg
  x2 : EccReg
  y2 : EccReg
  n : EccReg
  k : EccReg

abbrev EccPoint := EccReg × EccReg

/-- What selects the group of a point operation: field, length, curve and modulus registers. -/
structure EccDomain where
  fsel : Bool
  curveM : Nat
  a : Nat
  b : Nat
  n : Nat

/-- The accelerator: its point operations, what it makes of a quotient that is not defined, and
what an operation leaves in the registers that do not hold its result. -/
structure EccUnit where
  pointMul : EccDomain → Nat → EccPoint → EccPoint
  pointAdd : EccDomain → EccPoint → EccPoint → EccPoint
  divNone : Nat → Nat → Nat → Nat
  spoil : U32 → EccRegs → EccRegs

namespace EccUnit

variable (unit : EccUnit)

def modDivide (y x n : Nat) : Nat := (modDiv y x n).getD (unit.divNone y x n)

/-- The modular operation that MODOP selects; subtraction is never asked for. -/
def modular (modop : U32) (regs : EccRegs) : Option Nat :=
  if modop = 0 then some (unit.modDivide regs.y1.value regs.x1.value regs.n.value)
  else if modop = 1 then some (regs.x1.value * regs.y1.value % regs.n.value)
  else if modop = 2 then some ((regs.x1.value + regs.y1.value) % regs.n.value)
  else none

/-- The operation that `ECC_CTL` selects, on the operand registers: ECCOP are bits 9 and 10, MODOP
bits 11 and 12, FSEL is bit 8, CURVEM the ten highest bits. -/
def run (ctl : U32) (regs : EccRegs) : EccRegs :=
  let left := unit.spoil ctl regs
  let domain : EccDomain :=
    ⟨ctl.getLsbD 8, (ctl >>> 22).toNat, regs.a.value, regs.b.value, regs.n.value⟩
  let eccop := (ctl >>> 9) &&& 3
  if eccop = 0 then
    let (x, y) := unit.pointMul domain regs.k.value (regs.x1, regs.y1)
    { left with x1 := x, y1 := y }
  else if eccop = 1 then
    match unit.modular ((ctl >>> 11) &&& 3) regs with
    | some result => { left with x1 := .ofNat result }
    | none => left
  else if eccop = 2 then
    let (x, y) := unit.pointAdd domain (regs.x1, regs.y1) (regs.x2, regs.y2)
    { left with x1 := x, y1 := y }
  else left

end EccUnit

def eccopMask : U32 := 0x600
def eccopPointMul : U32 := 0x000
def eccopModule : U32 := 0x200
def eccopPointAdd : U32 := 0x400
def modopDiv : U32 := 0x0000
def modopMul : U32 := 0x0800
def modopAdd : U32 := 0x1000

def eccCtl (c : EccCurve) (mode : U32) (enableScap : Bool) : U32 :=
  let fsel := if mode &&& eccopMask = eccopModule then 0x100 else if c.gf = .gf2m then 0 else 0x100
  let scap := if enableScap then 0xc000 else 0
  fsel ||| scap ||| BitVec.ofNat 32 c.keyLen <<< 22 ||| mode ||| 1

def runEccCodec (unit : EccUnit) (c : EccCurve) (mode : U32) (enableScap : Bool) (regs : EccRegs) :
    EccRegs := unit.run (eccCtl c mode enableScap) regs

def eccInitCurve (c : EccCurve) (regs : EccRegs) : Option EccRegs := do
  let a ← hex2Reg c.ea.text .zero
  let b ← hex2Reg c.eb.text .zero
  let x1 ← hex2Reg c.px.text .zero
  let y1 ← hex2Reg c.py.text .zero
  let n ← match c.gf with
    | .gf2m => some ((((EccReg.zero.orBit 0).orBit c.keyLen).orBit c.irreducibleK1).orBit
        c.irreducibleK2 |>.orBit c.irreducibleK3)
    | .gfP => hex2Reg c.pp.text .zero
  some { regs with a := a, b := b, x1 := x1, y1 := y1, x2 := .zero, y2 := .zero, n := n }

/-- `ECC_GenerateSignature`: what it returns, and the texts it writes to `R` and `S`. -/
def eccGenerateSignature (unit : EccUnit) (eccCurve : EccCurveId) (message d k : List Byte)
    (regs : EccRegs) : Option (Int × List Byte × List Byte) :=
  match getCurve eccCurve with
  | none => some (-1, [], [])
  | some c => do
    let regs ← eccInitCurve c regs
    let regs := { regs with k := ← hex2Reg k .zero, x2 := ← hex2Reg c.eorder.text .zero }
    let regs := runEccCodec unit c eccopPointMul true regs
    -- r is the first coordinate modulo the order
    let regs := { regs with n := ← hex2Reg c.eorder.text .zero, y1 := .zero }
    let regs := runEccCodec unit c (eccopModule ||| modopAdd) false regs
    let tempResult1 := regs.x1
    -- 1 / k
    let regs := { regs with
      n := ← hex2Reg c.eorder.text .zero, y1 := .ofNat 1, x1 := ← hex2Reg k .zero }
    let regs := runEccCodec unit c (eccopModule ||| modopDiv) false regs
    let tempResult2 := regs.x1
    -- r d, then e + r d, then (e + r d) / k
    let regs := { regs with
      n := ← hex2Reg c.eorder.text .zero, x1 := tempResult1, y1 := ← hex2Reg d .zero }
    let regs := runEccCodec unit c (eccopModule ||| modopMul) false regs
    let regs := { regs with n := ← hex2Reg c.eorder.text .zero, y1 := ← hex2Reg message .zero }
    let regs := runEccCodec unit c (eccopModule ||| modopAdd) false regs
    let regs := { regs with n := ← hex2Reg c.eorder.text .zero, y1 := tempResult2 }
    let regs := runEccCodec unit c (eccopModule ||| modopMul) false regs
    some (0, reg2Hex c.echar tempResult1, reg2Hex c.echar regs.x1)

def eccVerifySignature (unit : EccUnit) (eccCurve : EccCurveId)
    (message publicK1 publicK2 R S : List Byte) (regs : EccRegs) : Option Int :=
  match getCurve eccCurve with
  | none => some (-1)
  | some c => do
    let regs ← eccInitCurve c regs
    -- w = 1 / s
    let regs := { regs with
      n := ← hex2Reg c.eorder.text .zero, y1 := .ofNat 1, x1 := ← hex2Reg S .zero }
    let regs := runEccCodec unit c (eccopModule ||| modopDiv) false regs
    let tempResult2 := regs.x1
    -- u1 = e w and u2 = r w
    let regs := { regs with
      n := ← hex2Reg c.eorder.text .zero, x1 := ← hex2Reg message .zero, y1 := tempResult2 }
    let regs := runEccCodec unit c (eccopModule ||| modopMul) false regs
    let tempResult1 := regs.x1
    let regs := { regs with
      n := ← hex2Reg c.eorder.text .zero, x1 := ← hex2Reg R .zero, y1 := tempResult2 }
    let regs := runEccCodec unit c (eccopModule ||| modopMul) false regs
    let tempResult2 := regs.x1
    -- u1 G
    let regs ← eccInitCurve c regs
    let regs := { regs with k := tempResult1, x2 := ← hex2Reg c.eorder.text .zero }
    let regs := runEccCodec unit c eccopPointMul true regs
    let (tempX, tempY) := (regs.x1, regs.y1)
    -- u2 Q
    let regs ← eccInitCurve c regs
    let regs := { regs with x1 := ← hex2Reg publicK1 .zero, y1 := ← hex2Reg publicK2 .zero }
    let regs := { regs with k := tempResult2, x2 := ← hex2Reg c.eorder.text .zero }
    let regs := runEccCodec unit c eccopPointMul true regs
    let (tempResult1, tempResult2) := (regs.x1, regs.y1)
    -- their sum, and its first coordinate modulo the order
    let regs ← eccInitCurve c regs
    let regs := { regs with x1 := tempResult1, y1 := tempResult2, x2 := tempX, y2 := tempY }
    let regs := runEccCodec unit c eccopPointAdd false regs
    let tempX := regs.x1
    let regs := { regs with n := ← hex2Reg c.eorder.text .zero, x1 := tempX, y1 := .zero }
    let regs := runEccCodec unit c (eccopModule ||| modopAdd) false regs
    if eccStrcmp (reg2Hex c.echar regs.x1) R ≠ 0 then some (-2) else some 0

end NuMakerMA35
